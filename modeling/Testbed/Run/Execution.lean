import Testbed.Run.Coordinator

/-!
# Execution of a run

A run is executed turn by turn until its coordinator is done.  The number of turns is bounded by the
number of attempts that the policy allows and by how often the runner's invocations have control.
-/

namespace Testbed.Run

variable {σ ι : Type}

def handle (setup : Setup σ ι) (turn : Turn) (s : State σ ι) : State σ ι :=
  match turn with
  | .work place => work setup place s
  | .expire place attempt => expire place attempt s
  | .ring place attempt alarm => ring place attempt alarm s
  | .cancel => s.cancel
  | .watch => watch s
  | .notice epoch => notice epoch s
  | .coordinate => coordinate setup s

/-- The instant of the next round. -/
def State.nextInstant (s : State σ ι) : Float :=
  if s.next.isEmpty then
    match Clock.earliest (s.timers.map (·.due)) with
    | some due => if s.now < due then due else s.now
    | none => s.now
  else s.now

/-- Starts the next round: the turns that are due join those that are queued. -/
def State.advance (s : State σ ι) : State σ ι :=
  let now := s.nextInstant
  let (due, timers) := s.timers.partition (·.due ≤ now)
  { s with now := now, timers := timers, queue := s.next ++ due.map (·.turn), next := [] }

def step (setup : Setup σ ι) (s : State σ ι) : State σ ι :=
  match s.queue with
  | turn :: queue => handle setup turn { s with queue := queue }
  | [] => s.advance

def State.isDone (s : State σ ι) : Bool :=
  match s.coordinator with
  | .done _ => true
  | _ => false

def steps (setup : Setup σ ι) : (fuel : Nat) → State σ ι → State σ ι
  | 0, s => s
  | fuel + 1, s => if s.isDone then s else steps setup fuel (step setup s)

/-- When the run is cancelled from outside. -/
inductive Cancellation where
  | never
  | before
  /-- A time after the start of the run. -/
  | after (delays : List Float)

/-- The times after the start of the run at which it is cancelled. -/
def Cancellation.delays : Cancellation → List Float
  | .after delays => delays
  | _ => []

/-- The beginning of a run of the components. -/
def begin (setup : Setup σ ι) (cancellation : Cancellation) (now : Float) (shared : σ)
    (components : List String) : State σ ι :=
  let s : State σ ι := {
    now := now
    timers := cancellation.delays.map fun delay ↦ ⟨now + delay, .cancel⟩
    queue := []
    next := [.watch]
    shared := shared
    places := components.map fun c ↦ { component := c }
    halted := false
    cancelled := cancellation matches .before
    watching := false
    coordinator := .waiting false
    epoch := 0
    journal := [] }
  let s := s.note (.info .run ("Running tests for " ++ toString components.length ++
    " component(s) (parallelism=" ++ toString setup.policy.parallelism ++ ", fail_fast=" ++
    (Data.Value.flag setup.policy.failFast).shown ++ ")"))
  fill setup s

/-- A bound on the turns of a run. -/
def turnBound (setup : Setup σ ι) (cancellation : Cancellation) (components : List String) : Nat :=
  (components.length + 2) * (setup.policy.retries.toNat + 3) * (setup.runner.turns + 8) * 8 +
    cancellation.delays.length * 4

/-- The state in which a run of the components ends. -/
def final (setup : Setup σ ι) (cancellation : Cancellation) (now : Float) (shared : σ)
    (components : List String) : State σ ι :=
  steps setup (turnBound setup cancellation components)
    (begin setup cancellation now shared components)

/-- What is left when a run has ended. -/
structure Ended (σ : Type) where
  now : Float
  shared : σ
  journal : Journal
  report : Except Abort Report

/-- What a run that is over leaves. -/
def State.ended (s : State σ ι) : Ended σ where
  now := s.now
  shared := s.shared
  journal := s.journal.reverse
  report := match s.coordinator with
    | .done (some abort) => .error abort
    | _ => .ok s.report

/-- Runs the tests of the components, which are those of a usable registry. -/
def execute (setup : Setup σ ι) (cancellation : Cancellation) (now : Float) (shared : σ)
    (components : List String) : Ended σ :=
  (final setup cancellation now shared components).ended

end Testbed.Run
