import Testbed.Run.State

/-!
# Attempts

The work on one component: attempts at it follow each other until one of them counts.  An attempt
that answered or raised a failure counts unless the component could not be tested and there are
attempts left; one that ran out of time always counts.
-/

namespace Testbed.Run

variable {σ ι : Type}

/-- The attempts left after an attempt. -/
def attemptsLeft (policy : Policy) (attempt : Nat) : Nat :=
  (policy.retries + 1 - attempt).toNat

/-- The answer of an attempt that ran out of time. -/
def timedOut (policy : Policy) : Answer where
  status := .errored
  diagnostics := some ("Timed out after " ++ Decimal.generalText (policy.timeout.getD 0.0) ++ "s")

/-- What an ended attempt amounts to. -/
inductive Assessment where
  /-- The attempt was interrupted for another reason than its time limit. -/
  | interrupted
  | counted (answer : Answer) (retryable : Bool)

/-- Judges an attempt by its ending, by whether its limit has expired, and by the number of
interruptions outstanding besides that of the limit. -/
def assess (policy : Policy) (expired : Bool) (outstanding : Nat) (ending : Ending) : Assessment :=
  match ending with
  | .answered answer =>
    .counted (if policy.captureOutput then answer else { status := answer.status }) true
  | .raised failure =>
    if expired then .counted (timedOut policy) false
    else .counted { status := .errored, diagnostics := some failure.text } true
  | .interrupted =>
    if expired ∧ outstanding = 0 then .counted (timedOut policy) false else .interrupted

/-- The log lines about an ended attempt. -/
def assessmentNotes (policy : Policy) (expired : Bool) (outstanding : Nat) (component : String)
    (ending : Ending) : List Note :=
  let late : List Note := [.warning .run (component ++ " timed out after " ++
    Decimal.generalText (policy.timeout.getD 0.0) ++ "s")]
  match ending with
  | .answered _ => []
  | .raised failure =>
    if expired then late
    else [.log {
      level := .error
      channel := .run
      text := "Runner crashed for " ++ component ++ ": " ++ failure.text
      trace := some failure }]
  | .interrupted => if expired ∧ outstanding = 0 then late else []

/-- Drops the timers of a place, those of the kept alarms aside. -/
def dropTimers (place : Nat) (keep : List Nat) (timers : List Timer) : List Timer :=
  timers.filter fun t ↦ match t.turn with
    | .ring p _ alarm => p ≠ place || keep.contains alarm
    | _ => true

/-- Drops all timers of a place. -/
def dropAllTimers (place : Nat) (timers : List Timer) : List Timer :=
  timers.filter fun t ↦ match t.turn with
    | .ring p _ _ => p ≠ place
    | .expire p _ => p ≠ place
    | _ => true

/-- The work on a component ends, which the coordinator is waiting to notice. -/
def finish (place : Nat) (w : Worker ι) (f : Finish) (s : State σ ι) : State σ ι :=
  let s := s.setWorker place { w with stage := .finished f }
  s.enqueue (.notice s.epoch)

/-- The last attempt counts. -/
def conclude (setup : Setup σ ι) (place : Nat) (component : String) (w : Worker ι)
    (answer : Answer) (s : State σ ι) : State σ ι :=
  let elapsed := s.now - w.started
  let (s, failure) := setup.emit s {
    component := component
    phase := .finished
    status := some answer.status
    elapsed := elapsed
    attempt := w.attempt }
  match failure with
  | some failure => finish place w (.failed failure) s
  | none =>
    finish place w (.outcome {
      component := component
      status := answer.status
      duration := .real elapsed
      diagnostics := answer.diagnostics
      attempts := w.attempt }) s

/-- Sets the time limit of an attempt. -/
def setLimit (setup : Setup σ ι) (place attempt : Nat) (s : State σ ι) : State σ ι :=
  match setup.policy.timeout with
  | none => s
  | some limit =>
    if s.now + limit ≤ s.now then s.enqueue (.expire place attempt)
    else s.set limit (.expire place attempt)

/-- Carries out what an invocation does next; gives its ending if it ends. -/
def apply (place : Nat) (w : Worker ι) (reply : Reply ι Ending) (s : State σ ι) :
    State σ ι × Option Ending :=
  let s := s.noteAll reply.notes
  match reply.next with
  | .ends ending => ({ s with timers := dropAllTimers place s.timers }, some ending)
  | .yields invocation =>
    let s := { s with timers := dropTimers place [] s.timers }
    let s := s.setWorker place { w with stage := .suspended invocation [] { queued := true } }
    (s.enqueue (.work place), none)
  | .waits invocation keep alarms =>
    let s := { s with timers := dropTimers place keep s.timers }
    let s := alarms.foldl (fun s (alarm, delay) ↦ s.set delay (.ring place w.attempt alarm)) s
    (s.setWorker place { w with stage := .suspended invocation (keep ++ alarms.map (·.1)) {} }, none)

/-- Starts an attempt.  Gives its ending if the attempt ends at once. -/
def startAttempt (setup : Setup σ ι) (place : Nat) (component : String) (w : Worker ι)
    (s : State σ ι) : State σ ι × Option Ending :=
  let s := setLimit setup place w.attempt s
  let (shared, reply) :=
    setup.runner.start s.shared s.now component setup.policy.captureOutput
  apply place w reply { s with shared := shared }

/-- The worker after an expired limit has been accounted for. -/
def Worker.released (w : Worker ι) : Worker ι :=
  { w with outstanding := if w.expired then w.outstanding - 1 else w.outstanding }

/-- Judges an ended attempt and makes the next one by `again`, if another one may follow. -/
def endAttempt (setup : Setup σ ι) (place : Nat) (component : String)
    (again : Option (Worker ι → State σ ι → State σ ι)) (w : Worker ι) (ending : Ending)
    (s : State σ ι) : State σ ι :=
  let w := w.released
  let s := s.noteAll (assessmentNotes setup.policy w.expired w.outstanding component ending)
  match assess setup.policy w.expired w.outstanding ending with
  | .interrupted => finish place w .interrupted s
  | .counted answer retryable =>
    if answer.status = .errored ∧ retryable then
      match again with
      | none => conclude setup place component w answer s
      | some again =>
        let s := s.note (.warning .run (component ++ " errored (attempt " ++ toString w.attempt ++
          " of " ++ toString (setup.policy.retries + 1) ++ "), retrying"))
        again { w with attempt := w.attempt + 1, expired := false, stage := .fresh } s
    else conclude setup place component w answer s

/-- Makes an attempt at a component; further ones, up to `left`, follow while attempts end at
once. -/
def attempt (setup : Setup σ ι) (place : Nat) (component : String) :
    (left : Nat) → Worker ι → State σ ι → State σ ι
  | left, w, s =>
    let (s, failure) := setup.emit s {
      component := component
      phase := .started
      attempt := w.attempt }
    match failure with
    | some failure => finish place w (.failed failure) s
    | none =>
      match startAttempt setup place component w s with
      | (s, none) => s
      | (s, some ending) =>
        let again := match left with
          | 0 => none
          | left + 1 => some (attempt setup place component left)
        endAttempt setup place component again w ending s

/-- The attempt that may follow another one after which `left` are left. -/
def further (setup : Setup σ ι) (place : Nat) (component : String) :
    (left : Nat) → Option (Worker ι → State σ ι → State σ ι)
  | 0 => none
  | left + 1 => some (attempt setup place component left)

/-- The turn of a component: its first attempt, or what its waiting invocation does next. -/
def work (setup : Setup σ ι) (place : Nat) (s : State σ ι) : State σ ι :=
  match s.places[place]? with
  | some { component, slot := .running w } =>
    match w.stage with
    | .fresh => attempt setup place component (attemptsLeft setup.policy w.attempt) w s
    | .suspended invocation _ { queued := true, rung, interrupted } =>
      let (shared, reply) :=
        setup.runner.resume s.shared s.now invocation { rung := rung, interrupted := interrupted }
      match apply place w reply { s with shared := shared } with
      | (s, none) => s
      | (s, some ending) =>
        let again := further setup place component (attemptsLeft setup.policy w.attempt)
        endAttempt setup place component again w ending s
    | _ => s
  | _ => s

/-- An alarm rings for a waiting invocation. -/
def ring (place attempt alarm : Nat) (s : State σ ι) : State σ ι :=
  match s.worker? place with
  | some w =>
    match w.stage with
    | .suspended invocation awaits signals =>
      if w.attempt = attempt ∧ alarm ∈ awaits then
        let heard := { signals with queued := true, rung := signals.rung ++ [alarm] }
        let s := s.setWorker place { w with stage := .suspended invocation awaits heard }
        if signals.queued then s else s.enqueue (.work place)
      else s
    | _ => s
  | none => s

/-- Interrupts the work on a component, if it has not ended. -/
def interrupt (place : Nat) (s : State σ ι) : State σ ι :=
  match s.worker? place with
  | some w =>
    match w.stage with
    | .suspended invocation awaits signals =>
      let heard := { signals with queued := true, interrupted := true }
      let s := s.setWorker place {
        w with outstanding := w.outstanding + 1, stage := .suspended invocation awaits heard }
      if signals.queued then s else s.enqueue (.work place)
    | _ => s
  | none => s

/-- The time limit of an attempt expires. -/
def expire (place attempt : Nat) (s : State σ ι) : State σ ι :=
  match s.worker? place with
  | some w =>
    match w.stage with
    | .suspended _ _ _ =>
      if w.attempt = attempt ∧ !w.expired then
        interrupt place (s.setWorker place { w with expired := true })
      else s
    | _ => s
  | none => s

end Testbed.Run
