import Testbed.Proofs.Run.Turns
import Testbed.Runner.Rehearsed

/-!
# Interleaved invocations

Invocations of a runner overlap in any way: at any time another one is made, or one that is underway
goes on because its wait is over or because it is interrupted.  A scripted runner keeps its books
right all the while.  It counts what is underway, it remembers the most that ever was, and every
invocation has the entry of the script that its place among the invocations for its component gives
it, whatever became of those before it.
-/

namespace Testbed

/-- What happens next among the invocations of a runner. -/
inductive Happening where
  /-- Another invocation is made. -/
  | call (now : Float) (component : String) (capture : Bool)
  /-- An invocation, known by its number, goes on. -/
  | wake (number : Nat) (now : Float) (wake : Wake)

/-- The component of the invocation that is made, if one is made. -/
def Happening.called? : Happening → Option String
  | .call _ component _ => some component
  | .wake _ _ _ => none

/-- What has become of an invocation. -/
inductive Fate (ι : Type) where
  | underway (state : ι)
  /-- It has ended, having been interrupted or not. -/
  | ended (interrupted : Bool) (ending : Ending)

namespace Fate

variable {ι : Type}

def isUnderway : Fate ι → Bool
  | .underway _ => true
  | .ended _ _ => false

def of (interrupted : Bool) : Activity.Next ι Ending → Fate ι
  | .ends ending => .ended interrupted ending
  | .yields state | .waits state _ _ => .underway state

end Fate

/-- An invocation that was made. -/
structure Made (ι : Type) where
  component : String
  fate : Fate ι

/-- The invocations of a runner in the order in which they were made, and the state they share. -/
structure Ensemble (σ ι : Type) where
  shared : σ
  made : List (Made ι) := []

namespace Ensemble

variable {σ ι : Type}

def components (e : Ensemble σ ι) : List String :=
  e.made.map (·.component)

/-- The number of invocations underway. -/
def inFlight (e : Ensemble σ ι) : Nat :=
  e.made.countP (·.fate.isUnderway)

/-- Something happens.  An invocation that has ended does not go on. -/
def step (runner : Runner σ ι) (e : Ensemble σ ι) : Happening → Ensemble σ ι
  | .call now component capture =>
    let (shared, reply) := runner.start e.shared now component capture
    { shared, made := e.made ++ [⟨component, .of false reply.next⟩] }
  | .wake number now wake =>
    match e.made[number]? with
    | some ⟨_, .underway state⟩ =>
      let (shared, reply) := runner.resume e.shared now state wake
      let fate := Fate.of wake.interrupted reply.next
      { shared, made := e.made.modify number fun m ↦ { m with fate } }
    | _ => e

/-- How a runner and its invocations stand after what has happened since there were none. -/
def after (runner : Runner σ ι) (shared : σ) (happenings : List Happening) : Ensemble σ ι :=
  happenings.foldl (step runner) { shared }

@[simp]
theorem after_concat (runner : Runner σ ι) (shared : σ) (happenings : List Happening)
    (h : Happening) :
    after runner shared (happenings ++ [h]) = step runner (after runner shared happenings) h := by
  simp [after]

theorem map_component_modify (made : List (Made ι)) (number : Nat) (fate : Fate ι) :
    (made.modify number fun m ↦ { m with fate }).map (·.component) = made.map (·.component) := by
  apply List.ext_getElem?
  intro k
  simp only [List.getElem?_map, List.getElem?_modify]
  split <;> simp [Function.comp_def]

theorem components_step (runner : Runner σ ι) (e : Ensemble σ ι) (h : Happening) :
    (e.step runner h).components = e.components ++ h.called?.toList := by
  cases h with
  | call now component capture => simp [step, components, Happening.called?]
  | wake number now wake =>
    rw [step, Happening.called?, Option.toList_none, List.append_nil]
    split
    · exact map_component_modify e.made number _
    · rfl

/-- Exactly the invocations that were made are there, in order. -/
theorem components_after (runner : Runner σ ι) (shared : σ) (happenings : List Happening) :
    (after runner shared happenings).components = happenings.filterMap Happening.called? := by
  induction happenings using List.reverseRecOn with
  | nil => rfl
  | append_singleton happenings h ih =>
    rw [after_concat, components_step, ih, List.filterMap_append]
    cases h <;> rfl

theorem step_wake_of_not_underway (runner : Runner σ ι) {e : Ensemble σ ι} {number : Nat}
    (h : ∀ m, e.made[number]? = some m → m.fate.isUnderway = false) (now : Float) (wake : Wake) :
    e.step runner (.wake number now wake) = e := by
  rw [step]
  split
  · next hm => cases h _ hm
  · rfl

end Ensemble

namespace Rehearsal

/-! ## One invocation -/

@[simp]
theorem fate_sleep (interrupted : Bool) (alarm : Nat) (delay : Float) (invocation : Invocation) :
    Fate.of interrupted (sleep alarm delay invocation) = .underway invocation := by
  unfold sleep
  split <;> rfl

/-- The fate of an invocation for a component that had `earlier` ones: it goes by the entry of the
script that is due, unless it is interrupted. -/
def Scripted (s : Script) (component : String) (earlier : Nat) : Fate Invocation → Prop
  | .underway invocation => invocation = .waiting (s.cue component earlier)
  | .ended true ending => ending = .interrupted
  | .ended false ending => ending = (s.cue component earlier).ending

/-- A scripted invocation ends as soon as it goes on. -/
theorem resume_scripted (s : Script) (shared : Shared) (component : String) (earlier : Nat)
    (wake : Wake) :
    ∃ ending, resume shared (.waiting (s.cue component earlier)) wake =
        (shared.leave, { next := .ends ending }) ∧
      Scripted s component earlier (.ended wake.interrupted ending) := by
  obtain ⟨rung, interrupted⟩ := wake
  cases interrupted with
  | false => exact ⟨(s.cue component earlier).ending, rfl, rfl⟩
  | true => exact ⟨.interrupted, rfl, rfl⟩

/-! ## The books -/

open Ensemble

variable {s : Script} {e : Ensemble Shared Invocation}

/-- The runner has counted what is underway and listed what was made, and every invocation keeps to
its entry. -/
structure Booked (s : Script) (e : Ensemble Shared Invocation) : Prop where
  active : e.shared.active = e.inFlight
  le_peak : e.inFlight ≤ e.shared.peak
  calls : e.shared.calls.map (·.component) = e.components
  scripted : ∀ (k : Nat) (m : Made Invocation), e.made[k]? = some m →
    Scripted s m.component ((e.components.take k).count m.component) m.fate

theorem Booked.count (he : Booked s e) (component : String) :
    e.shared.count component = e.components.count component := by
  rw [← he.calls, List.count, List.countP_map]
  apply List.countP_congr
  intro call _
  simp

theorem booked_start (s : Script) : Booked s { shared := {} } where
  active := rfl
  le_peak := le_rfl
  calls := rfl
  scripted k m hm := by simp at hm

/-! ### Another invocation -/

/-- An invocation is made with the entry of the script that is due. -/
theorem Booked.step_call (he : Booked s e) (now : Float) (component : String) (capture : Bool) :
    e.step (.scripted s) (.call now component capture) =
      { shared := e.shared.enter ⟨component, capture, now⟩
        made := e.made ++
          [⟨component, .underway (.waiting (s.cue component (e.components.count component)))⟩] } := by
  rw [← he.count]
  simp [Ensemble.step, Runner.scripted, Runner.rehearsed, start]

theorem Booked.call (he : Booked s e) (now : Float) (component : String) (capture : Bool) :
    let e' := e.step (.scripted s) (.call now component capture)
    Booked s e' ∧ e'.shared.peak = max e.shared.peak e'.inFlight := by
  rw [he.step_call]
  generalize hm : (⟨component, _⟩ : Made Invocation) = m
  have hflight : List.countP (·.fate.isUnderway) (e.made ++ [m]) = e.shared.active + 1 := by
    rw [List.countP_append, he.active, ← hm]
    rfl
  refine ⟨⟨hflight.symm, ?le_peak, ?calls, ?scripted⟩, ?peak⟩
  case le_peak => exact hflight.le.trans (le_max_left _ _)
  case peak =>
    rw [inFlight, hflight]
    exact max_comm _ _
  case calls => simp [Shared.enter, components, ← hm, he.calls]
  case scripted =>
    intro k m' hm'
    have hk : k ≤ e.components.length := by
      have hlt := (List.getElem?_eq_some_iff.1 hm').1
      simp only [List.length_append, List.length_singleton] at hlt
      simpa [components] using Nat.le_of_lt_succ hlt
    have htake : (components ⟨e.shared.enter ⟨component, capture, now⟩, e.made ++ [m]⟩).take k =
        e.components.take k := by
      rw [components, List.map_append]
      exact List.take_append_of_le_length hk
    rw [htake]
    -- the entry of an invocation rests on those before it alone, so the new one changes no other
    obtain hlt | heq := Nat.lt_or_eq_of_le hk
    · rw [List.getElem?_append_left (by simpa [components] using hlt)] at hm'
      exact he.scripted k m' hm'
    · have hlength : k = e.made.length := by simpa [components] using heq
      rw [List.getElem?_append_right hlength.ge, hlength, Nat.sub_self, List.getElem?_cons_zero,
        Option.some_inj] at hm'
      rw [heq, List.take_length, ← hm', ← hm]
      rfl

/-! ### The end of an invocation -/

/-- An invocation that goes on ends, and the others are left alone. -/
theorem Booked.step_wake (he : Booked s e) {number : Nat} {component : String}
    {invocation : Invocation} (hm : e.made[number]? = some ⟨component, .underway invocation⟩)
    (now : Float) (wake : Wake) :
    ∃ ending, Scripted s component ((e.components.take number).count component)
        (.ended wake.interrupted ending) ∧
      e.step (.scripted s) (.wake number now wake) =
        { shared := e.shared.leave
          made := e.made.modify number fun m ↦ { m with fate := .ended wake.interrupted ending } } := by
  have hinvocation := he.scripted number _ hm
  obtain ⟨ending, hresume, hending⟩ := resume_scripted s e.shared component
    ((e.components.take number).count component) wake
  refine ⟨ending, hending, ?_⟩
  rw [← (hinvocation : invocation = _)] at hresume
  rw [Ensemble.step, hm]
  simp [Runner.scripted, Runner.rehearsed, hresume, Fate.of]

theorem Booked.wake (he : Booked s e) (number : Nat) (now : Float) (wake : Wake) :
    let e' := e.step (.scripted s) (.wake number now wake)
    Booked s e' ∧ e'.shared.peak = max e.shared.peak e'.inFlight := by
  by_cases hunderway : ∃ component invocation,
      e.made[number]? = some ⟨component, .underway invocation⟩
  case neg =>
    rw [step_wake_of_not_underway]
    · exact ⟨he, (max_eq_left he.le_peak).symm⟩
    · rintro ⟨component, fate⟩ hm
      cases fate with
      | underway invocation => exact absurd ⟨component, invocation, hm⟩ hunderway
      | ended => rfl
  case pos =>
    obtain ⟨component, invocation, hm⟩ := hunderway
    obtain ⟨ending, hending, hstep⟩ := he.step_wake hm now wake
    rw [hstep]
    have hcomponents := map_component_modify e.made number (.ended wake.interrupted ending)
    have hcount := Run.countP_modify hm
      (fun m ↦ { m with fate := .ended wake.interrupted ending }) (·.fate.isUnderway)
    generalize hmade : e.made.modify number _ = made at hcomponents hcount
    -- one fewer is underway, so the count is lowered and the peak left alone
    have hflight : made.countP (·.fate.isUnderway) + 1 = e.inFlight := hcount
    have hpeak := he.le_peak
    refine ⟨⟨?active, ?le_peak, ?calls, ?scripted⟩, ?peak⟩
    case active =>
      change e.shared.active - 1 = made.countP (·.fate.isUnderway)
      have := he.active
      omega
    case le_peak =>
      change made.countP (·.fate.isUnderway) ≤ e.shared.peak
      omega
    case calls => exact he.calls.trans hcomponents.symm
    case peak =>
      apply (max_eq_left ?_).symm
      change made.countP (·.fate.isUnderway) ≤ e.shared.peak
      omega
    case scripted =>
      intro k m hk
      change Scripted s m.component (((made.map (·.component)).take k).count m.component) m.fate
      rw [hcomponents]
      rw [← hmade, List.getElem?_modify] at hk
      obtain ⟨m', hm', rfl⟩ := Option.map_eq_some_iff.1 hk
      split
      · next hnumber =>
        obtain rfl : m' = _ := Option.some_inj.1 ((hnumber ▸ hm').symm.trans hm)
        exact hnumber ▸ hending
      · exact he.scripted k m' hm'

/-! ## Whole histories -/

/-- The books stay right whatever happens next, and the peak is raised if it has to be. -/
theorem Booked.step (he : Booked s e) (h : Happening) :
    let e' := e.step (.scripted s) h
    Booked s e' ∧ e'.shared.peak = max e.shared.peak e'.inFlight := by
  cases h with
  | call now component capture => exact he.call now component capture
  | wake number now wake => exact he.wake number now wake

theorem booked_after (s : Script) (happenings : List Happening) :
    Booked s (after (.scripted s) {} happenings) := by
  induction happenings using List.reverseRecOn with
  | nil => exact booked_start s
  | append_singleton happenings h ih =>
    rw [after_concat]
    exact (ih.step h).1

/-- The peak was reached at some time, and never exceeded. -/
theorem isGreatest_peak (s : Script) (happenings : List Happening) :
    IsGreatest {n | ∃ past, past <+: happenings ∧ (after (.scripted s) {} past).inFlight = n}
      (after (.scripted s) {} happenings).shared.peak := by
  induction happenings using List.reverseRecOn with
  | nil =>
    refine ⟨⟨[], List.prefix_rfl, rfl⟩, ?_⟩
    rintro n ⟨past, hpast, rfl⟩
    rw [List.prefix_nil.1 hpast]
    exact le_rfl
  | append_singleton happenings h ih =>
    obtain ⟨⟨past, hpast, hreached⟩, hbound⟩ := ih
    have hpeak := ((booked_after s happenings).step h).2
    rw [after_concat, hpeak]
    constructor
    -- the new peak is the old one, reached in the past, or is reached now
    · obtain hmax | hmax := max_choice (after (.scripted s) {} happenings).shared.peak
        ((after (.scripted s) {} happenings).step (.scripted s) h).inFlight
      · exact ⟨past, hpast.trans (List.prefix_append _ _), hreached.trans hmax.symm⟩
      · exact ⟨happenings ++ [h], List.prefix_rfl, by rw [after_concat, hmax]⟩
    · rintro n ⟨past, hpast, rfl⟩
      obtain rfl | hpast := List.prefix_concat_iff.1 hpast
      · rw [after_concat]
        exact le_max_right _ _
      · exact le_max_of_le_left (hbound ⟨past, hpast, rfl⟩)

/-- The cue of an invocation is the entry of its place among those for its component, counted from
one, or the last entry if there are fewer. -/
theorem cue_ending (s : Script) (component : String) (earlier : Nat) :
    (s.entries component = [] → (s.cue component earlier).ending =
      .answered { status := .passed, diagnostics := some "ok" }) ∧
    (s.entries component ≠ [] → (s.entries component)[
      min (earlier + 1) (s.entries component).length - 1]? = some (s.cue component earlier).ending) := by
  rw [Script.cue, Script.entry?]
  constructor
  · intro hnil
    rw [hnil]
    rfl
  · intro hne
    have hpos := List.length_pos_of_ne_nil hne
    have hindex : min (earlier + 1) (s.entries component).length - 1 =
        min earlier ((s.entries component).length - 1) := by omega
    have hlt : min earlier ((s.entries component).length - 1) < (s.entries component).length := by
      omega
    rw [hindex, List.getElem?_eq_getElem hlt]
    rfl

end Rehearsal

open Rehearsal in
/-- However the invocations of a new scripted runner overlap, it has listed those that were made, it
counts those underway, none of them when all have ended, and its peak is the most that were underway
at any time.  An invocation that is underway ends when it goes on, interrupted or not, and leaves the
others alone.  The `n`-th invocation for a component that ends by itself ends with the `n`-th entry of
its script, the last one if there are fewer, or passes if there is none; one that is interrupted ends
in an interruption, and is counted all the same. -/
theorem Runner.scripted_keeps_books (s : Script) (happenings : List Happening) :
    let e := Ensemble.after (.scripted s) {} happenings
    e.components = happenings.filterMap Happening.called? ∧
    e.shared.calls.map (·.component) = e.components ∧
    e.shared.active = e.inFlight ∧
    ((∀ m ∈ e.made, m.fate.isUnderway = false) → e.shared.active = 0) ∧
    IsGreatest {n | ∃ past, past <+: happenings ∧
      (Ensemble.after (.scripted s) {} past).inFlight = n} e.shared.peak ∧
    (∀ (number : Nat) (component : String) (invocation : Invocation),
      e.made[number]? = some ⟨component, .underway invocation⟩ → ∀ (now : Float) (wake : Wake),
        ∃ ending, (e.step (.scripted s) (.wake number now wake)).made =
          e.made.modify number fun m ↦ { m with fate := .ended wake.interrupted ending }) ∧
    ∀ (k : Nat) (component : String) (interrupted : Bool) (ending : Ending),
      e.made[k]? = some ⟨component, .ended interrupted ending⟩ →
      let n := (e.components.take (k + 1)).count component
      if interrupted then ending = .interrupted
      else if s.entries component = [] then
        ending = .answered { status := .passed, diagnostics := some "ok" }
      else (s.entries component)[min n (s.entries component).length - 1]? = some ending := by
  intro e
  have he : Booked s e := booked_after s happenings
  refine ⟨Ensemble.components_after _ _ _, he.calls, he.active, ?idle, isGreatest_peak s happenings, ?ends,
    ?entry⟩
  case idle =>
    intro hended
    rw [he.active]
    apply List.countP_eq_zero.2
    simpa using hended
  case ends =>
    intro number component invocation hm now wake
    obtain ⟨ending, -, hstep⟩ := he.step_wake hm now wake
    exact ⟨ending, by rw [hstep]⟩
  case entry =>
    intro k component interrupted ending hk n
    have hscripted := he.scripted k _ hk
    cases interrupted with
    | true => exact hscripted
    | false =>
      have hcomponent : e.components[k]? = some component := by
        rw [Ensemble.components, List.getElem?_map, hk]
        rfl
      have hn : n = (e.components.take k).count component + 1 := by
        change (e.components.take (k + 1)).count component = _
        rw [List.take_add_one, hcomponent, List.count_append]
        simp
      obtain ⟨hnil, hne⟩ := cue_ending s component ((e.components.take k).count component)
      rw [if_neg Bool.false_ne_true, hn, (hscripted : ending = _)]
      split
      · next h => exact hnil h
      · next h => exact hne h

end Testbed
