import Testbed.Proofs.Run.View

/-!
# The pace of an attempt

While an attempt is underway exactly one of two things leads to its end: the alarm of its delay, or
the end of its time limit.  Which one it is was decided when the attempt started.  The pace of an
attempt lists the turns and timers that its place can have meanwhile; it is kept by every turn about
the place and by the clock, until the attempt ends when its course says.
-/

namespace Testbed.Run

open Clock

namespace Role

/-- The work on an attempt that nothing has interrupted. -/
def waiting (r : Role) (started : Float) (attempt : Nat) (awaits : List Nat) (signals : Signals) :
    Worker Rehearsal.Invocation where
  started := started
  attempt := attempt
  stage := .suspended (.waiting (r.cue attempt)) awaits signals

/-- The work on an attempt that its time limit has interrupted. -/
def overdue (r : Role) (started : Float) (attempt : Nat) (awaits rung : List Nat) :
    Worker Rehearsal.Invocation where
  started := started
  attempt := attempt
  outstanding := 1
  expired := true
  stage := .suspended (.waiting (r.cue attempt)) awaits
    { queued := true, rung := rung, interrupted := true }

end Role

/-- The timers of a time limit are still to come. -/
def Unspent (policy : Policy) (i attempt : Nat) (start now : Float) : Prop :=
  ∀ t ∈ limitTimers policy i attempt start, ¬ t.due ≤ now

/-- An attempt that started at `start`: the work, the turns and the timers of its place. -/
inductive Pace (r : Role) (i attempt : Nat) (started start : Float) :
    (now : Float) → Worker Rehearsal.Invocation → (queue next : List Turn) → List Timer → Prop
  | armed {now} (hdelay : ¬ r.delay ≤ 0) (hhurried : r.hurried start = false)
      (hnow : tick now ≤ tick (r.alarm start)) (hlimit : Unspent r.policy i attempt start now) :
      Pace r i attempt started start now (r.waiting started attempt [0] {}) [] []
        (limitTimers r.policy i attempt start ++ [⟨r.alarm start, .ring i attempt 0⟩])
  | rings {now} (hlate : r.late start = false) (hnow : now = r.alarm start)
      (hlimit : Unspent r.policy i attempt start now) :
      Pace r i attempt started start now (r.waiting started attempt [0] {}) [.ring i attempt 0] []
        (limitTimers r.policy i attempt start)
  | woken {now} (hlate : r.late start = false) (hnow : now = r.alarm start)
      (hlimit : Unspent r.policy i attempt start now) (awaits rung : List Nat)
      {queue next : List Turn} (hwork : queue ++ next = [.work i]) :
      Pace r i attempt started start now
        (r.waiting started attempt awaits { queued := true, rung := rung }) queue next
        (limitTimers r.policy i attempt start)
  | hurried (hdelay : ¬ r.delay ≤ 0) (hhurried : r.hurried start = true) :
      Pace r i attempt started start start (r.waiting started attempt [0] {}) []
        [.expire i attempt] [⟨r.alarm start, .ring i attempt 0⟩]
  | hurriedYield (hdelay : r.delay ≤ 0) (hhurried : r.hurried start = true) :
      Pace r i attempt started start start (r.waiting started attempt [] { queued := true }) []
        [.expire i attempt, .work i] []
  | expires {now} (hlate : r.late start = true) (hnow : now = r.ends start)
      (halarm : ¬ r.alarm start ≤ now) :
      Pace r i attempt started start now (r.waiting started attempt [0] {}) [.expire i attempt] []
        [⟨r.alarm start, .ring i attempt 0⟩]
  | expiresRings {now} (hlate : r.late start = true) (hnow : now = r.ends start) :
      Pace r i attempt started start now (r.waiting started attempt [0] {})
        [.expire i attempt, .ring i attempt 0] [] []
  | expiresYield {now} (hlate : r.late start = true) (hnow : now = r.ends start) :
      Pace r i attempt started start now (r.waiting started attempt [] { queued := true })
        [.expire i attempt, .work i] [] []
  | expired {now} (hlate : r.late start = true) (hnow : now = r.ends start) (awaits rung : List Nat)
      {queue next : List Turn} {timers : List Timer}
      (hturns : queue = [] ∧ next = [.work i] ∨ queue = [.ring i attempt 0] ∧ next = [.work i] ∨
        queue = [.work i] ∧ next = [])
      (htimers : ∀ t ∈ timers, ¬ t.due ≤ now ∧ t.turn = .ring i attempt 0) :
      Pace r i attempt started start now (r.overdue started attempt awaits rung) queue next timers

/-- The instant to which the clock moves, as the timers of a place see it. -/
structure Ticks (timers : List Timer) (next : List Turn) (now now' : Float) : Prop where
  instant : IsInstant now
  instant' : IsInstant now'
  le : tick now ≤ tick now'
  due : ∀ t ∈ timers, t.due ≤ now' → now' = if t.due ≤ now then now else t.due
  next : next ≠ [] → now' = now

theorem Ticks.eq_due {timers : List Timer} {next : List Turn} {now now' : Float} {t : Timer}
    (h : Ticks timers next now now') (ht : t ∈ timers) (hinstant : IsInstant t.due)
    (hnow : tick now ≤ tick t.due) (hdue : t.due ≤ now') : now' = t.due := by
  have heq := h.due t ht hdue
  split at heq
  · next hle =>
    rw [le_iff_tick hinstant h.instant] at hle
    rw [heq]
    exact tick_injective (by omega)
  · exact heq

namespace Pace

variable {r : Role} {i attempt : Nat} {started start now : Float}

/-! ## The clock -/

theorem limitTimers_of_hurried (h : r.hurried start = true) :
    limitTimers r.policy i attempt start = [] := by
  unfold Role.hurried at h
  unfold limitTimers
  cases hlimit : r.policy.timeout with
  | none => rfl
  | some limit => simpa [hlimit] using h

theorem ends_of_hurried (hdelay : 0 ≤ r.delay) (hstart : IsInstant start)
    (h : r.hurried start = true) : r.ends start = start := by
  rw [Role.ends, if_pos (Role.late_of_hurried hdelay hstart h)]
  unfold Role.hurried at h
  unfold Role.cutoff
  cases hlimit : r.policy.timeout with
  | none => rfl
  | some limit => exact if_pos (by simpa [hlimit] using h)

/-- The timer of a limit that is not over at once. -/
theorem limitTimers_cases (i attempt : Nat) (hstart : IsInstant start) (h : r.hurried start = false) :
    limitTimers r.policy i attempt start = [] ∧ r.late start = false ∨
      limitTimers r.policy i attempt start = [⟨r.cutoff start, .expire i attempt⟩] ∧
        (r.late start = true ↔ r.cutoff start ≤ r.alarm start) ∧
          (∀ x, IsInstant x → r.cutoff start ≤ x → IsInstant (r.cutoff start)) := by
  unfold Role.hurried at h
  unfold limitTimers Role.late Role.cutoff
  cases hlimit : r.policy.timeout with
  | none => exact .inl ⟨rfl, rfl⟩
  | some limit =>
    have hnot : ¬ start + limit ≤ start := by simpa [hlimit] using h
    refine .inr ⟨by simp [hnot], by simp [hnot], fun x hx hle ↦ ?_⟩
    simp only [if_neg hnot] at hle ⊢
    refine isInstant_of_not_le hstart hnot ?_
    by_contra hnan
    exact (not_le_of_isNaN (by simpa using hnan) _).1 hle

/-- Nothing has happened yet: either alarm or limit comes first, or neither has come. -/
theorem advance_armed {now' : Float} (hdelay : 0 ≤ r.delay) (hstart : IsInstant start)
    (hd : ¬ r.delay ≤ 0) (hhurried : r.hurried start = false)
    (hnow : tick now ≤ tick (r.alarm start)) (hlimit : Unspent r.policy i attempt start now)
    (ht : Ticks (limitTimers r.policy i attempt start ++ [⟨r.alarm start, .ring i attempt 0⟩]) []
      now now') :
    Pace r i attempt started start now' (r.waiting started attempt [0] {})
      (((limitTimers r.policy i attempt start ++
        [(⟨r.alarm start, .ring i attempt 0⟩ : Timer)]).filter (·.due ≤ now')).map (·.turn)) []
      ((limitTimers r.policy i attempt start ++
        [(⟨r.alarm start, .ring i attempt 0⟩ : Timer)]).filter fun t ↦ ¬ t.due ≤ now') := by
  have halarm := Role.isInstant_alarm hdelay hstart
  have heq (hb : r.alarm start ≤ now') : now' = r.alarm start :=
    ht.eq_due (t := ⟨r.alarm start, .ring i attempt 0⟩) (by simp) halarm.1 hnow hb
  have hrest (hb : ¬ r.alarm start ≤ now') : tick now' ≤ tick (r.alarm start) := by
    rw [le_iff_tick halarm.1 ht.instant'] at hb
    omega
  obtain ⟨hnone, hlate⟩ | ⟨hone, hlate, hinstant⟩ := limitTimers_cases i attempt hstart hhurried
  · have hunspent : Unspent r.policy i attempt start now' := by simp [Unspent, hnone]
    by_cases hb : r.alarm start ≤ now'
    · have hpace : Pace r i attempt started _ _ _ _ _ _ := rings hlate (heq hb) hunspent
      simpa [hnone, hb] using hpace
    · have hpace : Pace r i attempt started _ _ _ _ _ _ := armed hd hhurried (hrest hb) hunspent
      simpa [hnone, hb] using hpace
  · have hcut : ¬ r.cutoff start ≤ now :=
      hlimit ⟨r.cutoff start, .expire i attempt⟩ (by simp [hone])
    by_cases hc : r.cutoff start ≤ now'
    · have hc' : now' = r.cutoff start := by
        have := ht.due ⟨r.cutoff start, .expire i attempt⟩ (by simp [hone]) hc
        rwa [if_neg hcut] at this
      have hcinstant := hinstant now' ht.instant' hc
      by_cases hb : r.alarm start ≤ now'
      · have hl : r.late start = true :=
          hlate.2 (by rw [← heq hb]; exact hc)
        have hpace : Pace r i attempt started _ _ _ _ _ _ := expiresRings hl
          (hc'.trans (if_pos hl).symm)
        simpa [hone, hb, hc] using hpace
      · have hl : r.late start = true := by
          refine hlate.2 ((le_iff_tick hcinstant halarm.1).2 ?_)
          rw [← hc']
          exact hrest hb
        have hpace : Pace r i attempt started _ _ _ _ _ _ := expires hl
          (hc'.trans (if_pos hl).symm) hb
        simpa [hone, hb, hc] using hpace
    · have hunspent : Unspent r.policy i attempt start now' := by simpa [Unspent, hone] using hc
      by_cases hb : r.alarm start ≤ now'
      · have hl : r.late start = false := by
          by_contra hl
          exact hc (by rw [heq hb]; exact hlate.1 (by simpa using hl))
        have hpace : Pace r i attempt started _ _ _ _ _ _ := rings hl (heq hb) hunspent
        simpa [hone, hb, hc] using hpace
      · have hpace : Pace r i attempt started _ _ _ _ _ _ := armed hd hhurried (hrest hb) hunspent
        simpa [hone, hb, hc] using hpace

/-- The clock moves on while an attempt is underway. -/
theorem advance {w : Worker Rehearsal.Invocation} {next : List Turn} {timers : List Timer}
    {now' : Float} (hdelay : 0 ≤ r.delay) (hstart : IsInstant start)
    (h : Pace r i attempt started start now w [] next timers) (ht : Ticks timers next now now') :
    Pace r i attempt started start now' w
      (next ++ (timers.filter (·.due ≤ now')).map (·.turn)) []
      (timers.filter fun t ↦ ¬ t.due ≤ now') := by
  have halarm := Role.isInstant_alarm hdelay hstart
  generalize hqueue : ([] : List Turn) = queue at h
  cases h with
  | armed hd hh hnow hlimit => exact advance_armed hdelay hstart hd hh hnow hlimit ht
  | rings => cases hqueue
  | woken hlate hnow hlimit awaits rung hwork =>
    subst hqueue
    obtain rfl : next = [.work i] := by simpa using hwork
    obtain rfl : now' = now := ht.next (by simp)
    have hpace : Pace r i attempt started _ _ _ _ _ _ := woken hlate hnow hlimit awaits rung
      (show [Turn.work i] ++ [] = [.work i] from rfl)
    rw [List.filter_eq_nil_iff.2 (by simpa [Unspent] using hlimit),
      List.filter_eq_self.2 (by simpa [Unspent] using hlimit)]
    exact hpace
  | hurried hd hh =>
    obtain rfl : now' = start := ht.next (by simp)
    have hl := Role.late_of_hurried hdelay hstart hh
    have hends := (ends_of_hurried hdelay hstart hh).symm
    by_cases hb : r.alarm now' ≤ now'
    · have hpace : Pace r i attempt started _ _ _ _ _ _ := expiresRings hl hends
      simpa [hb] using hpace
    · have hpace : Pace r i attempt started _ _ _ _ _ _ := expires hl hends hb
      simpa [hb] using hpace
  | hurriedYield hd hh =>
    obtain rfl : now' = start := ht.next (by simp)
    have hl := Role.late_of_hurried hdelay hstart hh
    exact expiresYield hl (ends_of_hurried hdelay hstart hh).symm
  | expires => cases hqueue
  | expiresRings => cases hqueue
  | expiresYield => cases hqueue
  | expired hlate hnow awaits rung hturns htimers =>
    subst hqueue
    obtain rfl : next = [.work i] := by simpa using hturns
    obtain rfl : now' = now := ht.next (by simp)
    have hpace : Pace r i attempt started _ _ _ _ _ _ := expired hlate hnow awaits rung
      (.inr (.inr ⟨rfl, rfl⟩)) htimers
    rw [List.filter_eq_nil_iff.2 (by simpa using fun t h ↦ (htimers t h).1),
      List.filter_eq_self.2 (by simpa using fun t h ↦ (htimers t h).1)]
    exact hpace

/-! ## Turns -/

theorem limitTurns_eq (r : Role) (i attempt : Nat) (start : Float) :
    limitTurns r.policy i attempt start =
      if r.hurried start then [.expire i attempt] else [] := by
  unfold limitTurns Role.hurried
  cases r.policy.timeout with
  | none => rfl
  | some limit => simp

theorem dropTimers_limitTimers (r : Role) (i attempt : Nat) (start : Float) :
    dropTimers i [] (limitTimers r.policy i attempt start) =
      limitTimers r.policy i attempt start := by
  unfold limitTimers
  cases r.policy.timeout with
  | none => rfl
  | some limit =>
    dsimp only
    split <;> rfl

theorem unspent_start (i attempt : Nat) (h : r.hurried start = false) :
    Unspent r.policy i attempt start start := by
  unfold Unspent limitTimers
  unfold Role.hurried at h
  cases hlimit : r.policy.timeout with
  | none => simp
  | some limit =>
    have hnot : ¬ start + limit ≤ start := by simpa [hlimit] using h
    simp [hnot]

/-- An attempt begins at its pace. -/
theorem begun {v : View} {w : Worker Rehearsal.Invocation} (hdelay : 0 ≤ r.delay)
    (hnow : IsInstant v.now) (hcalls : v.calls = r.earlier + (w.attempt - 1))
    (houtstanding : w.outstanding = 0) (hexpired : w.expired = false) (hqueue : v.queue = [])
    (hnext : v.next = []) (htimers : v.timers = []) :
    ∃ w', (v.begun r.policy r.script i r.component w).slot = some (.running w') ∧
      Pace r i w.attempt w.started v.now (v.begun r.policy r.script i r.component w).now w'
        (v.begun r.policy r.script i r.component w).queue
        (v.begun r.policy r.script i r.component w).next
        (v.begun r.policy r.script i r.component w).timers := by
  have hcue : r.script.cue r.component v.calls = r.cue w.attempt := by rw [hcalls, Role.cue]
  obtain ⟨started, attempt, outstanding, expired, stage⟩ := w
  obtain rfl : outstanding = 0 := houtstanding
  obtain rfl : expired = false := hexpired
  simp only [View.begun, hcue, hqueue, hnext, htimers, limitTurns_eq, List.nil_append]
  by_cases hd : r.script.delay r.component ≤ 0
  · have halarm : v.now = r.alarm v.now := (if_pos hd).symm
    simp only [if_pos hd]
    refine ⟨_, rfl, ?_⟩
    cases hh : r.hurried v.now
    · have hlate : r.late v.now = false := by
        unfold Role.hurried at hh
        unfold Role.late
        rw [← halarm]
        exact hh
      have hpace : Pace r i attempt started _ _ _ _ _ _ := woken hlate halarm (unspent_start i attempt hh) [] []
        (show [] ++ [Turn.work i] = [.work i] from rfl)
      simpa [Role.waiting, dropTimers_limitTimers] using hpace
    · have hpace : Pace r i attempt started _ _ _ _ _ _ := hurriedYield hd hh
      simpa [Role.waiting, limitTimers_of_hurried hh, dropTimers] using hpace
  · have halarm : v.now + r.script.delay r.component = r.alarm v.now := (if_neg hd).symm
    simp only [if_neg hd, halarm]
    refine ⟨_, rfl, ?_⟩
    cases hh : r.hurried v.now
    · have hpace : Pace r i attempt started _ _ _ _ _ _ := armed hd hh (Role.isInstant_alarm hdelay hnow).2
        (unspent_start i attempt hh)
      simpa [Role.waiting, dropTimers_limitTimers] using hpace
    · have hpace : Pace r i attempt started _ _ _ _ _ _ := hurried hd hh
      simpa [Role.waiting, limitTimers_of_hurried hh, dropTimers] using hpace

variable {w : Worker Rehearsal.Invocation} {queue next : List Turn} {timers : List Timer}

/-- Work that an alarm rings for. -/
def rung (w : Worker Rehearsal.Invocation) (invocation : Rehearsal.Invocation) (awaits : List Nat)
    (signals : Signals) (alarm : Nat) : Worker Rehearsal.Invocation :=
  { w with stage := .suspended invocation awaits { signals with
      queued := true
      rung := signals.rung ++ [alarm] } }

theorem ring {n alarm : Nat}
    (h : Pace r i attempt started start now w (.ring i n alarm :: queue) next timers) :
    ∃ invocation awaits signals, w.stage = .suspended invocation awaits signals ∧
      (w.attempt = n ∧ alarm ∈ awaits → Pace r i attempt started start now
        (rung w invocation awaits signals alarm) queue
        (next ++ if signals.queued then [] else [.work i]) timers) ∧
      (¬ (w.attempt = n ∧ alarm ∈ awaits) →
        Pace r i attempt started start now w queue next timers) := by
  generalize hturns : Turn.ring i n alarm :: queue = turns at h
  cases h with
  | armed => cases hturns
  | rings hlate hnow hlimit =>
    cases hturns
    refine ⟨_, _, _, rfl, fun _ ↦ ?_, fun hn ↦ absurd ⟨rfl, List.mem_singleton_self 0⟩ hn⟩
    exact woken hlate hnow hlimit [0] [0] (show [] ++ [Turn.work i] = [.work i] from rfl)
  | woken hlate hnow hlimit awaits rung hwork =>
    subst hturns
    cases hwork
  | hurried => cases hturns
  | hurriedYield => cases hturns
  | expires => cases hturns
  | expiresRings => cases hturns
  | expiresYield => cases hturns
  | expired hlate hnow awaits rung hcases htimers =>
    subst hturns
    obtain ⟨⟨rfl, rfl⟩, rfl, rfl⟩ : (n = attempt ∧ alarm = 0) ∧ queue = [] ∧ next = [.work i] := by
      simpa [and_assoc] using hcases
    refine ⟨_, _, _, rfl, fun _ ↦ ?_, fun _ ↦ ?_⟩
    · exact expired hlate hnow awaits (rung ++ [0]) (.inl ⟨rfl, rfl⟩) htimers
    · exact expired hlate hnow awaits rung (.inl ⟨rfl, rfl⟩) htimers

/-- Work whose time limit has expired. -/
def cutOff (w : Worker Rehearsal.Invocation) (invocation : Rehearsal.Invocation) (awaits : List Nat)
    (signals : Signals) : Worker Rehearsal.Invocation :=
  { w with
    expired := true
    outstanding := w.outstanding + 1
    stage := .suspended invocation awaits { signals with queued := true, interrupted := true } }

theorem expire {n : Nat}
    (h : Pace r i attempt started start now w (.expire i n :: queue) next timers) :
    ∃ invocation awaits signals, w.stage = .suspended invocation awaits signals ∧
      w.attempt = n ∧ w.expired = false ∧
      Pace r i attempt started start now (cutOff w invocation awaits signals) queue
        (next ++ if signals.queued then [] else [.work i]) timers := by
  generalize hturns : Turn.expire i n :: queue = turns at h
  cases h with
  | armed => cases hturns
  | rings => cases hturns
  | woken hlate hnow hlimit awaits rung hwork =>
    subst hturns
    cases hwork
  | hurried => cases hturns
  | hurriedYield => cases hturns
  | expires hlate hnow halarm =>
    cases hturns
    refine ⟨_, _, _, rfl, rfl, rfl, ?_⟩
    exact expired hlate hnow [0] [] (.inl ⟨rfl, rfl⟩) (by simpa using halarm)
  | expiresRings hlate hnow =>
    cases hturns
    refine ⟨_, _, _, rfl, rfl, rfl, ?_⟩
    exact expired hlate hnow [0] [] (.inr (.inl ⟨rfl, rfl⟩)) (by simp)
  | expiresYield hlate hnow =>
    cases hturns
    refine ⟨_, _, _, rfl, rfl, rfl, ?_⟩
    exact expired hlate hnow [] [] (.inr (.inr ⟨rfl, rfl⟩)) (by simp)
  | expired hlate hnow awaits rung hcases htimers =>
    subst hturns
    simp at hcases

/-- When the invocation has its turn, the attempt ends as its course says. -/
theorem work (h : Pace r i attempt started start now w (.work i :: queue) next timers) :
    queue = [] ∧ next = [] ∧ dropAllTimers i timers = [] ∧ now = r.ends start ∧
      w.started = started ∧ w.attempt = attempt ∧ w.released.outstanding = 0 ∧
      ∃ awaits rung interrupted, w.stage = .suspended (.waiting (r.cue attempt)) awaits
          { queued := true, rung, interrupted } ∧
        assess r.policy w.released.expired w.released.outstanding
          (if interrupted then .interrupted else (r.cue attempt).ending) =
            r.assessment attempt start := by
  generalize hturns : Turn.work i :: queue = turns at h
  cases h with
  | armed => cases hturns
  | rings => cases hturns
  | woken hlate hnow hlimit awaits rung hwork =>
    subst hturns
    obtain ⟨rfl, rfl⟩ : queue = [] ∧ next = [] := by simpa using hwork
    have hdrop : dropAllTimers i (limitTimers r.policy i attempt start) = [] := by
      unfold limitTimers
      cases r.policy.timeout with
      | none => rfl
      | some limit =>
        dsimp only
        split <;> simp [dropAllTimers]
    refine ⟨rfl, rfl, hdrop, ?_, rfl, rfl, rfl, _, _, _, rfl, ?_⟩
    · rw [hnow, Role.ends, hlate]
      rfl
    · rw [Role.assessment, hlate]
      rfl
  | hurried => cases hturns
  | hurriedYield => cases hturns
  | expires => cases hturns
  | expiresRings => cases hturns
  | expiresYield => cases hturns
  | expired hlate hnow awaits rung hcases htimers =>
    subst hturns
    obtain ⟨rfl, rfl⟩ : queue = [] ∧ next = [] := by simpa using hcases
    refine ⟨rfl, rfl, ?_, hnow, rfl, rfl, rfl, _, _, _, rfl, ?_⟩
    · rw [dropAllTimers, List.filter_eq_nil_iff]
      intro t ht
      simp [(htimers t ht).2]
    · rw [Role.assessment, hlate]
      rfl

/-- An attempt waits, and has its turn if it was told anything. -/
theorem stage (h : Pace r i attempt started start now w queue next timers) :
    ∃ awaits signals, w.stage = .suspended (.waiting (r.cue attempt)) awaits signals ∧
      (if w.expired then 1 else 0) ≤ w.outstanding ∧
      (signals.queued = true → .work i ∈ queue ++ next) := by
  cases h with
  | armed => exact ⟨_, _, rfl, Nat.le_refl 0, by simp⟩
  | rings => exact ⟨_, _, rfl, Nat.le_refl 0, by simp⟩
  | woken hlate hnow hlimit awaits rung hwork =>
    exact ⟨_, _, rfl, Nat.le_refl 0, fun _ ↦ by simp [hwork]⟩
  | hurried => exact ⟨_, _, rfl, Nat.le_refl 0, by simp⟩
  | hurriedYield => exact ⟨_, _, rfl, Nat.le_refl 0, by simp⟩
  | expires => exact ⟨_, _, rfl, Nat.le_refl 0, by simp⟩
  | expiresRings => exact ⟨_, _, rfl, Nat.le_refl 0, by simp⟩
  | expiresYield => exact ⟨_, _, rfl, Nat.le_refl 0, by simp⟩
  | expired hlate hnow awaits rung hcases htimers =>
    refine ⟨_, _, rfl, Nat.le_refl 1, fun _ ↦ ?_⟩
    obtain ⟨rfl, rfl⟩ | ⟨rfl, rfl⟩ | ⟨rfl, rfl⟩ := hcases <;> simp

/-- An attempt that is underway has not passed its end. -/
theorem le_ends (hdelay : 0 ≤ r.delay) (hstart : IsInstant start) (hnow : IsInstant now)
    (h : Pace r i attempt started start now w queue next timers) :
    tick now ≤ tick (r.ends start) := by
  cases h with
  | armed hd hhurried halarm hlimit =>
    rw [Role.ends]
    split
    · next hlate =>
      obtain ⟨-, hnone⟩ | ⟨hone, -, -⟩ := limitTimers_cases i attempt hstart hhurried
      · simp [hnone] at hlate
      · have hcut := hlimit ⟨r.cutoff start, .expire i attempt⟩ (by simp [hone])
        rw [le_iff_tick (Role.isInstant_cutoff hstart hdelay hlate).1 hnow] at hcut
        omega
    · exact halarm
  | rings hlate halarm => rw [Role.ends, hlate, halarm]; exact le_rfl
  | woken hlate halarm => rw [Role.ends, hlate, halarm]; exact le_rfl
  | hurried => exact (Role.isInstant_ends hdelay hstart).2
  | hurriedYield => exact (Role.isInstant_ends hdelay hstart).2
  | expires hlate hends => rw [hends]
  | expiresRings hlate hends => rw [hends]
  | expiresYield hlate hends => rw [hends]
  | expired hlate hends => rw [hends]

/-- If no turn is pending then the alarm is still to come. -/
theorem exists_alarm (hdelay : 0 ≤ r.delay) (hstart : IsInstant start)
    (h : Pace r i attempt started start now w [] [] timers) :
    ∃ t ∈ timers, IsInstant t.due := by
  have halarm := (Role.isInstant_alarm hdelay hstart).1
  generalize hqueue : ([] : List Turn) = queue at h
  generalize hnext : queue = next at h
  cases h with
  | armed => exact ⟨⟨r.alarm start, .ring i attempt 0⟩, by simp, halarm⟩
  | woken hlate hnow hlimit awaits rung hwork =>
    subst hnext
    subst hqueue
    cases hwork
  | expired hlate hnow awaits rung hcases htimers =>
    subst hnext
    subst hqueue
    simp at hcases

end Pace

end Testbed.Run
