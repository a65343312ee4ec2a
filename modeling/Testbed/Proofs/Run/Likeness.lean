import Testbed.Proofs.Run.Coordination
import Testbed.Proofs.Run.Replies

/-!
# Runs that are alike

Two runs whose runners answer alike take the same turns.  They may differ in what their runners share,
in their invocations and in the diagnostics of their outcomes, but not in what happens to whom and when.
Such runs can part only where an attempt of the first is interrupted and that of the second is not.
-/

namespace Testbed

/-- A remark on the run itself: a progress event, or a warning or an error of the run. -/
def Note.IsRemark : Note → Prop
  | .progress _ => True
  | .log line => line.channel = .run ∧ (line.level = .warning ∨ line.level = .error)
  | _ => False

instance (n : Note) : Decidable n.IsRemark := by
  unfold Note.IsRemark
  split <;> infer_instance

/-- The remarks of a journal. -/
def Journal.remarks (j : Journal) : Journal :=
  j.filter (·.note.IsRemark)

theorem Journal.remarks_append (j k : Journal) : (j ++ k).remarks = j.remarks ++ k.remarks :=
  List.filter_append j k

theorem Journal.remarks_cons_of {e : Entry} (h : e.note.IsRemark) (j : Journal) :
    Journal.remarks (e :: j) = e :: j.remarks :=
  List.filter_cons_of_pos (decide_eq_true h)

theorem Journal.remarks_cons_of_not {e : Entry} (h : ¬ e.note.IsRemark) (j : Journal) :
    Journal.remarks (e :: j) = j.remarks :=
  List.filter_cons_of_neg (by simpa using h)

theorem Journal.remarks_of_none {j : Journal} (h : ∀ e ∈ j, ¬ e.note.IsRemark) : j.remarks = [] :=
  List.filter_eq_nil_iff.2 fun e he ↦ by simpa using h e he

namespace Run

/-! ## Bonds between runs -/

/-- How two runs may differ. -/
structure Bond (σ ι : Type) where
  shared : σ → σ → Prop
  invocation : ι → ι → Prop
  ending : Ending → Ending → Prop
  /-- The diagnostics of outcomes of the same status. -/
  diagnostics : Status → Option String → Option String → Prop
  /-- The runs may part. -/
  parting : Prop

namespace Bond

variable {σ ι : Type} (b : Bond σ ι)

inductive Next : Activity.Next ι Ending → Activity.Next ι Ending → Prop
  | ends {ending ending' : Ending} (h : b.ending ending ending') : Next (.ends ending) (.ends ending')
  | yields {v v' : ι} (h : b.invocation v v') : Next (.yields v) (.yields v')
  | waits {v v' : ι} (h : b.invocation v v') (keep : List Nat) (alarms : List (Nat × Float)) :
    Next (.waits v keep alarms) (.waits v' keep alarms)

/-- Replies that lead to the same, without a remark. -/
structure Replies (reply reply' : Reply ι Ending) : Prop where
  next : b.Next reply.next reply'.next
  notes : ∀ n ∈ reply.notes, ¬ n.IsRemark
  notes' : ∀ n ∈ reply'.notes, ¬ n.IsRemark

inductive Assessments : Assessment → Assessment → Prop
  | interrupted : Assessments .interrupted .interrupted
  | counted {status : Status} {d d' : Option String} (h : b.diagnostics status d d') (retryable : Bool) :
    Assessments (.counted ⟨status, d⟩ retryable) (.counted ⟨status, d'⟩ retryable)

inductive Outcomes : Outcome → Outcome → Prop
  | mk (o : Outcome) {d : Option String} (h : b.diagnostics o.status o.diagnostics d) :
    Outcomes o { o with diagnostics := d }

inductive Finishes : Finish → Finish → Prop
  | outcome {o o' : Outcome} (h : b.Outcomes o o') : Finishes (.outcome o) (.outcome o')
  | interrupted : Finishes .interrupted .interrupted
  | failed (failure : Failure) : Finishes (.failed failure) (.failed failure)

inductive Stages : Stage ι → Stage ι → Prop
  | fresh : Stages .fresh .fresh
  | suspended {v v' : ι} (h : b.invocation v v') (awaits : List Nat) (signals : Signals) :
    Stages (.suspended v awaits signals) (.suspended v' awaits signals)
  | finished {f f' : Finish} (h : b.Finishes f f') : Stages (.finished f) (.finished f')

inductive Workers : Worker ι → Worker ι → Prop
  | mk (w : Worker ι) {stage : Stage ι} (h : b.Stages w.stage stage) : Workers w { w with stage := stage }

inductive Slots : Slot ι → Slot ι → Prop
  | pending : Slots .pending .pending
  | running (w : Worker ι) {stage : Stage ι} (h : b.Stages w.stage stage) :
    Slots (.running w) (.running { w with stage := stage })
  | settled {o o' : Outcome} (h : b.Outcomes o o') : Slots (.settled o) (.settled o')

inductive Places : Place ι → Place ι → Prop
  | mk (component : String) {slot slot' : Slot ι} (h : b.Slots slot slot') :
    Places ⟨component, slot⟩ ⟨component, slot'⟩

/-- States that are alike. -/
inductive Alike (s : State σ ι) : State σ ι → Prop
  | mk {shared : σ} {places : List (Place ι)} {journal : Journal} (hshared : b.shared s.shared shared)
    (hplaces : List.Forall₂ b.Places s.places places) (hremarks : journal.remarks = s.journal.remarks) :
    Alike s { s with shared := shared, places := places, journal := journal }

/-- States that are alike, or parted at a place. -/
def Meets (i : Nat) (s s' : State σ ι) : Prop :=
  b.Alike s s' ∨ b.parting ∧ s.finish? i = some .interrupted

end Bond

/-- Setups whose runs are alike. -/
structure Setup.Resembles {σ ι : Type} (b : Bond σ ι) (setup setup' : Setup σ ι) : Prop where
  quiet : setup.IsQuiet
  quiet' : setup'.IsQuiet
  policy : setup'.policy = { setup.policy with captureOutput := setup'.policy.captureOutput }
  turns : setup'.runner.turns = setup.runner.turns
  same (status : Status) (d : Option String) : b.diagnostics status d d
  start {shared shared' : σ} (h : b.shared shared shared') (now : Float) (component : String) :
    b.shared (setup.runner.start shared now component setup.policy.captureOutput).1
        (setup'.runner.start shared' now component setup'.policy.captureOutput).1 ∧
      b.Replies (setup.runner.start shared now component setup.policy.captureOutput).2
        (setup'.runner.start shared' now component setup'.policy.captureOutput).2
  resume {shared shared' : σ} {v v' : ι} (h : b.shared shared shared') (hv : b.invocation v v')
    (now : Float) (wake : Wake) :
    b.shared (setup.runner.resume shared now v wake).1 (setup'.runner.resume shared' now v' wake).1 ∧
      b.Replies (setup.runner.resume shared now v wake).2 (setup'.runner.resume shared' now v' wake).2
  judges {ending ending' : Ending} (h : b.ending ending ending') (expired : Bool) (outstanding : Nat)
    (component : String) :
    b.parting ∧ assess setup.policy expired outstanding ending = .interrupted ∨
      b.Assessments (assess setup.policy expired outstanding ending)
          (assess setup'.policy expired outstanding ending') ∧
        assessmentNotes setup'.policy expired outstanding component ending' =
          assessmentNotes setup.policy expired outstanding component ending

section Lists

variable {α β : Type} {R : α → β → Prop} {l : List α} {l' : List β}

theorem forall₂_getElem? (h : List.Forall₂ R l l') (i : Nat) : Option.Rel R l[i]? l'[i]? := by
  induction h generalizing i with
  | nil => exact .none
  | cons hab _ ih =>
    cases i with
    | zero => exact .some hab
    | succ i => exact ih i

theorem forall₂_modify (h : List.Forall₂ R l l') {f : α → α} {g : β → β}
    (hfg : ∀ a b, R a b → R (f a) (g b)) (i : Nat) : List.Forall₂ R (l.modify i f) (l'.modify i g) := by
  induction h generalizing i with
  | nil => cases i <;> exact .nil
  | cons hab htail ih =>
    cases i with
    | zero => exact .cons (hfg _ _ hab) htail
    | succ i => exact .cons hab (ih i)

theorem forall₂_map (h : List.Forall₂ R l l') {f : α → α} {g : β → β}
    (hfg : ∀ a b, R a b → R (f a) (g b)) : List.Forall₂ R (l.map f) (l'.map g) :=
  List.rel_map (fun a b hab ↦ hfg a b hab) h

end Lists

variable {σ ι : Type} {b : Bond σ ι} {setup setup' : Setup σ ι} {s s' : State σ ι} {i : Nat} {c : String}
  {w : Worker ι} {stage : Stage ι}

namespace Bond.Alike

/-! ## Parts of a state -/

theorem place? (hs : b.Alike s s') (i : Nat) : Option.Rel b.Places s.places[i]? s'.places[i]? := by
  cases hs with
  | mk hshared hplaces hremarks => exact forall₂_getElem? hplaces i

theorem slot? (hs : b.Alike s s') (i : Nat) : Option.Rel b.Slots (s.slot? i) (s'.slot? i) := by
  have hplace := hs.place? i
  rw [State.slot?, State.slot?]
  generalize s.places[i]? = p at hplace
  generalize s'.places[i]? = p' at hplace
  cases hplace with
  | none => exact .none
  | some h =>
    cases h with
    | mk c h => exact .some h

theorem worker? (hs : b.Alike s s') (i : Nat) : Option.Rel b.Workers (s.worker? i) (s'.worker? i) := by
  have hslot := hs.slot? i
  rw [State.worker?, State.worker?]
  generalize s.slot? i = slot at hslot
  generalize s'.slot? i = slot' at hslot
  cases hslot with
  | none => exact .none
  | some h =>
    cases h with
    | running w h => exact .some (.mk w h)
    | pending | settled => exact .none

theorem note (hs : b.Alike s s') (n : Note) : b.Alike (s.note n) (s'.note n) := by
  cases hs with
  | mk hshared hplaces hremarks =>
    exact .mk hshared hplaces (by
      rw [State.note, ← List.singleton_append, Journal.remarks_append, hremarks, ← Journal.remarks_append]
      rfl)

/-- Notes that are no remarks may differ. -/
theorem noteAll (hs : b.Alike s s') {notes notes' : List Note} (h : ∀ n ∈ notes, ¬ n.IsRemark)
    (h' : ∀ n ∈ notes', ¬ n.IsRemark) : b.Alike (s.noteAll notes) (s'.noteAll notes') := by
  have hnone {notes : List Note} (h : ∀ n ∈ notes, ¬ n.IsRemark) (now : Float) :
      Journal.remarks (notes.map fun n ↦ ⟨now, n⟩).reverse = [] := by
    refine Journal.remarks_of_none fun e he ↦ ?_
    obtain ⟨n, hn, rfl⟩ := List.mem_map.1 (List.mem_reverse.1 he)
    exact h n hn
  cases hs with
  | mk hshared hplaces hremarks =>
    rw [State.noteAll_eq, State.noteAll_eq]
    exact .mk hshared hplaces (by
      rw [Journal.remarks_append, Journal.remarks_append, hnone h, hnone h', hremarks])

theorem noteSame (hs : b.Alike s s') (notes : List Note) :
    b.Alike (s.noteAll notes) (s'.noteAll notes) := by
  induction notes generalizing s s' with
  | nil => exact hs
  | cons n notes ih => exact ih (hs.note n)

theorem info (hs : b.Alike s s') (channel channel' : Channel) (text text' : String) :
    b.Alike (s.note (.info channel text)) (s'.note (.info channel' text')) :=
  have hinfo (channel : Channel) (text : String) : ∀ n ∈ [Note.info channel text], ¬ n.IsRemark :=
    fun n hn ↦ by
      rw [List.mem_singleton.1 hn]
      exact fun hremark ↦ by simpa using hremark.2
  hs.noteAll (hinfo channel text) (hinfo channel' text')

theorem enqueue (hs : b.Alike s s') (t : Turn) : b.Alike (s.enqueue t) (s'.enqueue t) := by
  cases hs with
  | mk hshared hplaces hremarks => exact .mk hshared hplaces hremarks

theorem set (hs : b.Alike s s') (delay : Float) (t : Turn) :
    b.Alike (s.set delay t) (s'.set delay t) := by
  cases hs with
  | mk hshared hplaces hremarks => exact .mk hshared hplaces hremarks

theorem setAll (hs : b.Alike s s') (i n : Nat) (alarms : List (Nat × Float)) :
    b.Alike (alarms.foldl (fun s (alarm, delay) ↦ s.set delay (.ring i n alarm)) s)
      (alarms.foldl (fun s (alarm, delay) ↦ s.set delay (.ring i n alarm)) s') := by
  induction alarms generalizing s s' with
  | nil => exact hs
  | cons alarm alarms ih => exact ih (hs.set _ _)

theorem setWorker (hs : b.Alike s s') (i : Nat) (hstage : b.Stages w.stage stage) :
    b.Alike (s.setWorker i w) (s'.setWorker i { w with stage := stage }) := by
  cases hs with
  | mk hshared hplaces hremarks =>
    refine .mk hshared (forall₂_modify hplaces (fun p p' hp ↦ ?_) i) hremarks
    cases hp with
    | mk c _ => exact .mk c (.running w hstage)

theorem setPlaces (hs : b.Alike s s') {places places' : List (Place ι)}
    (h : List.Forall₂ b.Places places places') :
    b.Alike { s with places := places } { s' with places := places' } := by
  cases hs with
  | mk hshared hplaces hremarks => exact .mk hshared h hremarks

theorem setCoordinator (hs : b.Alike s s') (coordinator : Coordinator) :
    b.Alike { s with coordinator := coordinator } { s' with coordinator := coordinator } := by
  cases hs with
  | mk hshared hplaces hremarks => exact .mk hshared hplaces hremarks

theorem setHalted (hs : b.Alike s s') (halted : Bool) :
    b.Alike { s with halted := halted } { s' with halted := halted } := by
  cases hs with
  | mk hshared hplaces hremarks => exact .mk hshared hplaces hremarks

/-- The coordinator waits anew. -/
theorem await (hs : b.Alike s s') (coordinator : Coordinator) :
    b.Alike { s with epoch := s.epoch + 1, coordinator := coordinator }
      { s' with epoch := s'.epoch + 1, coordinator := coordinator } := by
  cases hs with
  | mk hshared hplaces hremarks => exact .mk hshared hplaces hremarks

theorem timers (hs : b.Alike s s') (f : List Timer → List Timer) :
    b.Alike { s with timers := f s.timers } { s' with timers := f s'.timers } := by
  cases hs with
  | mk hshared hplaces hremarks => exact .mk hshared hplaces hremarks

theorem setShared (hs : b.Alike s s') {x x' : σ} (h : b.shared x x') :
    b.Alike { s with shared := x } { s' with shared := x' } := by
  cases hs with
  | mk hshared hplaces hremarks => exact .mk h hplaces hremarks

theorem shared (hs : b.Alike s s') : b.shared s.shared s'.shared := by
  cases hs
  assumption

theorem now (hs : b.Alike s s') : s'.now = s.now := by
  cases hs
  rfl

theorem epoch (hs : b.Alike s s') : s'.epoch = s.epoch := by
  cases hs
  rfl

theorem halted (hs : b.Alike s s') : s'.halted = s.halted := by
  cases hs
  rfl

theorem cancelled (hs : b.Alike s s') : s'.cancelled = s.cancelled := by
  cases hs
  rfl

theorem coordinator (hs : b.Alike s s') : s'.coordinator = s.coordinator := by
  cases hs
  rfl

theorem places (hs : b.Alike s s') : List.Forall₂ b.Places s.places s'.places := by
  cases hs
  assumption

end Bond.Alike

/-! ## Attempts -/

section Attempts

variable (h : setup.Resembles b setup')
include h

omit h in
theorem finish_alike (hs : b.Alike s s') {f f' : Finish} (hf : b.Finishes f f') :
    b.Alike (finish i w f s) (finish i { w with stage := stage } f' s') := by
  rw [finish, finish]
  dsimp only
  have hworker := hs.setWorker (w := { w with stage := .finished f }) i (.finished hf)
  have hepoch := hworker.epoch
  rw [hepoch]
  exact hworker.enqueue _

theorem conclude_alike (hs : b.Alike s s') {status : Status} {d d' : Option String}
    (hd : b.diagnostics status d d') :
    b.Alike (conclude setup i c w ⟨status, d⟩ s)
      (conclude setup' i c { w with stage := stage } ⟨status, d'⟩ s') := by
  unfold conclude
  dsimp only
  rw [h.quiet.emit, h.quiet'.emit, hs.now]
  exact finish_alike ((hs.note _).note _) (.outcome (.mk _ hd))

theorem setLimit_alike (hs : b.Alike s s') (i n : Nat) :
    b.Alike (setLimit setup i n s) (setLimit setup' i n s') := by
  unfold setLimit
  rw [h.policy, hs.now]
  dsimp only
  split
  · exact hs
  · split
    · exact hs.enqueue _
    · exact hs.set _ _

omit h in
theorem apply_alike (hs : b.Alike s s') {reply reply' : Reply ι Ending} (hreply : b.Replies reply reply')
    (i : Nat) (w : Worker ι) (stage : Stage ι) :
    b.Alike (apply i w reply s).1 (apply i { w with stage := stage } reply' s').1 ∧
      Option.Rel b.ending (apply i w reply s).2 (apply i { w with stage := stage } reply' s').2 := by
  have hnoted := hs.noteAll hreply.notes hreply.notes'
  obtain ⟨notes, next⟩ := reply
  obtain ⟨notes', next'⟩ := reply'
  have hnext : b.Next next next' := hreply.next
  cases hnext with
  | ends hending => exact ⟨hnoted.timers (dropAllTimers i), .some hending⟩
  | yields hv =>
    exact ⟨((hnoted.timers (dropTimers i [])).setWorker i (.suspended hv _ _)).enqueue _, .none⟩
  | waits hv keep alarms =>
    exact ⟨((hnoted.timers (dropTimers i keep)).setAll i _ alarms).setWorker i (.suspended hv _ _), .none⟩

theorem attempting_alike (hs : b.Alike s s') (i : Nat) (c : String) (w : Worker ι) (stage : Stage ι) :
    b.Alike (s.attempting setup i c w) (s'.attempting setup' i c { w with stage := stage }) ∧
      b.Replies (setup.runner.start s.shared s.now c setup.policy.captureOutput).2
        (setup'.runner.start s'.shared s'.now c setup'.policy.captureOutput).2 := by
  obtain ⟨hshared, hreply⟩ := h.start hs.shared s.now c
  rw [State.attempting, State.attempting, hs.now]
  exact ⟨(setLimit_alike h hs i w.attempt).setShared hshared, hreply⟩

/-- An ended attempt leads to the same, or the runs part. -/
theorem endAttempt_alike {left : Nat} (hs : b.Alike s s') {slot : Slot ι} (hslot : s.slot? i = some slot)
    (hagain : ∀ l, left = l + 1 → ∀ (w : Worker ι) (stage : Stage ι) (s s' : State σ ι),
      b.Alike s s' → s.slot? i = some slot → b.Meets i (attempt setup i c l w s)
        (attempt setup' i c l { w with stage := stage } s'))
    {ending ending' : Ending} (hending : b.ending ending ending') :
    b.Meets i (endAttempt setup i c (further setup i c left) w ending s)
      (endAttempt setup' i c (further setup' i c left) { w with stage := stage } ending' s') := by
  unfold endAttempt
  dsimp only
  have hreleased : ({ w with stage := stage } : Worker ι).released =
      { w.released with stage := stage } := rfl
  rw [hreleased]
  dsimp only
  obtain ⟨hparting, hinterrupted⟩ | ⟨hassess, hnotes⟩ :=
    h.judges hending w.released.expired w.released.outstanding c
  · refine .inr ⟨hparting, ?_⟩
    rw [hinterrupted, State.noteAll_eq]
    exact Option.bind_eq_some_iff.2 ⟨_, finish_running hslot w.released .interrupted, rfl⟩
  · rw [hnotes]
    have hnoted := hs.noteSame
      (assessmentNotes setup.policy w.released.expired w.released.outstanding c ending)
    have hslot' : (s.noteAll (assessmentNotes setup.policy w.released.expired w.released.outstanding c
        ending)).slot? i = some slot := by
      rw [State.noteAll_eq]
      exact hslot
    generalize s.noteAll _ = s₁ at hnoted hslot'
    generalize s'.noteAll _ = s₁' at hnoted
    generalize assess setup.policy w.released.expired w.released.outstanding ending = a at hassess
    generalize assess setup'.policy w.released.expired w.released.outstanding ending' = a' at hassess
    cases hassess with
    | interrupted => exact .inl (finish_alike hnoted .interrupted)
    | counted hd retryable =>
      dsimp only
      split
      · cases left with
        | zero => exact .inl (conclude_alike h hnoted hd)
        | succ left =>
          simp only [further]
          rw [h.policy]
          exact hagain left rfl _ _ _ _ (hnoted.note _) hslot'
      · exact .inl (conclude_alike h hnoted hd)

theorem attempt_alike_of {left : Nat} (hs : b.Alike s s') {slot : Slot ι} (hslot : s.slot? i = some slot)
    (hreplied : ∀ (reply reply' : Reply ι Ending) (s s' : State σ ι), b.Alike s s' →
      s.slot? i = some slot → b.Replies reply reply' → b.Meets i (replied setup i c left w reply s)
        (replied setup' i c left { w with stage := stage } reply' s')) :
    b.Meets i (attempt setup i c left w s) (attempt setup' i c left { w with stage := stage } s') := by
  have hemitted : b.Alike (setup.emit s (startedEvent c w.attempt)).1
      (setup'.emit s' (startedEvent c w.attempt)).1 := by
    rw [h.quiet.emit, h.quiet'.emit]
    exact (hs.note _).note _
  obtain ⟨-, hreply⟩ := attempting_alike h hs i c w stage
  obtain ⟨hattempting, -⟩ := attempting_alike h hemitted i c w stage
  rw [attempt_eq_emit h.quiet, attempt_eq_emit h.quiet']
  refine hreplied _ _ _ _ hattempting ?_ hreply
  obtain ⟨-, -, hplaces, -⟩ := setLimit_frame setup i w.attempt (setup.emit s (startedEvent c w.attempt)).1
  rw [State.slot?, State.attempting, hplaces, h.quiet.emit]
  exact hslot

/-- Replies that are alike lead to the same, or the runs part: by induction on the attempts left. -/
theorem replied_alike {left : Nat} {reply reply' : Reply ι Ending} (hs : b.Alike s s') {slot : Slot ι}
    (hslot : s.slot? i = some slot) (hreply : b.Replies reply reply') :
    b.Meets i (replied setup i c left w reply s)
      (replied setup' i c left { w with stage := stage } reply' s') := by
  induction left using Nat.strong_induction_on generalizing w stage reply reply' s s' with
  | _ left ih =>
    obtain ⟨happlied, hended⟩ := apply_alike hs hreply i w stage
    have hslot' {ending : Ending} (h : (apply i w reply s).2 = some ending) :
        (apply i w reply s).1.slot? i = some slot := by
      rw [apply, State.noteAll_eq] at h ⊢
      dsimp only at h ⊢
      split at h
      · exact hslot
      · cases h
      · cases h
    rw [replied, replied]
    generalize apply i w reply s = applied at happlied hended hslot'
    generalize apply i { w with stage := stage } reply' s' = applied' at happlied hended
    obtain ⟨s₁, ending?⟩ := applied
    obtain ⟨s₁', ending?'⟩ := applied'
    cases hended with
    | none => exact .inl happlied
    | some hending =>
      refine endAttempt_alike h happlied (hslot' rfl) (fun l hl w stage s s' hs hslot ↦ ?_) hending
      exact attempt_alike_of h hs hslot fun _ _ _ _ ↦ ih l (by omega)

theorem attempt_alike {left : Nat} (hs : b.Alike s s') {slot : Slot ι} (hslot : s.slot? i = some slot) :
    b.Meets i (attempt setup i c left w s) (attempt setup' i c left { w with stage := stage } s') :=
  attempt_alike_of h hs hslot fun _ _ _ _ hs hslot ↦ replied_alike h hs hslot

/-! ## Turns of a place -/

theorem resume_alike (hs : b.Alike s s') {v v' : ι} (hv : b.invocation v v') (wake : Wake) :
    b.shared (setup.runner.resume s.shared s.now v wake).1
        (setup'.runner.resume s'.shared s'.now v' wake).1 ∧
      b.Replies (setup.runner.resume s.shared s.now v wake).2
        (setup'.runner.resume s'.shared s'.now v' wake).2 := by
  rw [hs.now]
  exact h.resume hs.shared hv s.now wake

theorem work_alike (hs : b.Alike s s') (i : Nat) : b.Meets i (work setup i s) (work setup' i s') := by
  have hleft (n : Nat) : attemptsLeft setup'.policy n = attemptsLeft setup.policy n := by
    rw [h.policy]
    rfl
  have hplace := hs.place? i
  unfold work
  generalize hp : s.places[i]? = p at hplace
  generalize s'.places[i]? = p' at hplace
  cases hplace with
  | none => exact .inl hs
  | some hplace =>
    cases hplace with
    | mk c hslots =>
      cases hslots with
      | pending | settled => exact .inl hs
      | running w hstage =>
        have hslot : s.slot? i = some (.running w) := State.slot?_eq_some.2 ⟨c, hp⟩
        dsimp only
        generalize hw : w.stage = stage at hstage
        cases hstage with
        | fresh =>
          dsimp only
          rw [hleft]
          exact attempt_alike h hs hslot
        | finished => exact .inl hs
        | suspended hv awaits signals =>
          obtain ⟨_ | _, rung, interrupted⟩ := signals
          · exact .inl hs
          · dsimp only
            rw [hleft]
            obtain ⟨hshared, hreply⟩ := resume_alike h hs hv ⟨rung, interrupted⟩
            exact replied_alike h (hs.setShared hshared) hslot hreply

omit h in
theorem ring_alike (hs : b.Alike s s') (i n alarm : Nat) :
    b.Alike (ring i n alarm s) (ring i n alarm s') := by
  have hworker := hs.worker? i
  unfold ring
  generalize s.worker? i = w at hworker
  generalize s'.worker? i = w' at hworker
  cases hworker with
  | none => exact hs
  | @some w _ hworker =>
    cases hworker with
    | mk hstage =>
      dsimp only
      generalize hw : w.stage = stage at hstage
      cases hstage with
      | fresh | finished => exact hs
      | suspended hv awaits signals =>
        dsimp only
        split
        · have hset := hs.setWorker i (w := { w with
            stage := .suspended _ awaits ⟨true, signals.rung ++ [alarm], signals.interrupted⟩ })
            (.suspended hv _ _)
          split
          · exact hset
          · exact hset.enqueue _
        · exact hs

omit h in
theorem interrupt_alike (hs : b.Alike s s') (i : Nat) : b.Alike (interrupt i s) (interrupt i s') := by
  have hworker := hs.worker? i
  unfold interrupt
  generalize s.worker? i = w at hworker
  generalize s'.worker? i = w' at hworker
  cases hworker with
  | none => exact hs
  | @some w _ hworker =>
    cases hworker with
    | mk hstage =>
      dsimp only
      generalize hw : w.stage = stage at hstage
      cases hstage with
      | fresh | finished => exact hs
      | suspended hv awaits signals =>
        have hset := hs.setWorker i (w := { w with
          outstanding := w.outstanding + 1
          stage := .suspended _ awaits { signals with queued := true, interrupted := true } })
          (.suspended hv _ _)
        dsimp only
        split
        · exact hset
        · exact hset.enqueue _

omit h in
theorem expire_alike (hs : b.Alike s s') (i n : Nat) : b.Alike (expire i n s) (expire i n s') := by
  have hworker := hs.worker? i
  unfold expire
  generalize s.worker? i = w at hworker
  generalize s'.worker? i = w' at hworker
  cases hworker with
  | none => exact hs
  | @some w _ hworker =>
    cases hworker with
    | mk hstage =>
      dsimp only
      generalize hw : w.stage = stage at hstage
      cases hstage with
      | fresh | finished => exact hs
      | suspended hv awaits signals =>
        dsimp only
        split
        · exact interrupt_alike (hs.setWorker i
            (w := { w with expired := true, stage := .suspended _ awaits signals }) (.suspended hv _ _)) i
        · exact hs

end Attempts

/-! ## Turns that tell the coordinator something -/

theorem cancel_alike (hs : b.Alike s s') : b.Alike s.cancel s'.cancel := by
  cases hs with
  | mk hshared hplaces hremarks =>
    unfold State.cancel
    dsimp only
    split
    · exact .mk hshared hplaces hremarks
    · split <;> exact .mk hshared hplaces hremarks

theorem watch_alike (hs : b.Alike s s') : b.Alike (watch s) (watch s') := by
  cases hs with
  | mk hshared hplaces hremarks =>
    unfold watch
    dsimp only
    split
    · split <;> exact .mk hshared hplaces hremarks
    · exact .mk hshared hplaces hremarks

theorem notice_alike (hs : b.Alike s s') (epoch : Nat) : b.Alike (notice epoch s) (notice epoch s') := by
  cases hs with
  | mk hshared hplaces hremarks =>
    unfold notice
    dsimp only
    split
    · exact .mk hshared hplaces hremarks
    · split
      · exact .mk hshared hplaces hremarks
      · split <;> exact .mk hshared hplaces hremarks
      · exact .mk hshared hplaces hremarks

/-! ## What the coordinator sees -/

namespace Bond.Slots

variable {slot slot' : Slot ι}

theorem isPending (h : b.Slots slot slot') : slot'.isPending = slot.isPending := by
  cases h <;> rfl

theorem isRunning (h : b.Slots slot slot') : slot'.isRunning = slot.isRunning := by
  cases h <;> rfl

theorem finish? (h : b.Slots slot slot') : Option.Rel b.Finishes slot.finish? slot'.finish? := by
  cases h with
  | pending | settled => exact .none
  | running w h =>
    obtain ⟨_, _, _, _, stage⟩ := w
    cases h with
    | fresh | suspended => exact .none
    | finished h => exact .some h

theorem finish?_isSome (h : b.Slots slot slot') : slot'.finish?.isSome = slot.finish?.isSome := by
  have hfinish := h.finish?
  generalize slot.finish? = f at hfinish
  generalize slot'.finish? = f' at hfinish
  cases hfinish <;> rfl

theorem kept (h : b.Slots slot slot') : slot'.kept = slot.kept := by
  cases h with
  | pending | settled => rfl
  | running w h =>
    obtain ⟨_, _, _, _, stage⟩ := w
    cases h with
    | fresh | suspended => rfl
    | finished h => cases h <;> rfl

end Bond.Slots

theorem placesWith_alike (hs : b.Alike s s') {q : Slot ι → Bool}
    (hq : ∀ slot slot', b.Slots slot slot' → q slot' = q slot) : s'.placesWith q = s.placesWith q := by
  refine State.placesWith_congr hs.places.length_eq.symm fun i _ ↦ ?_
  have hslot := hs.slot? i
  generalize s.slot? i = slot at hslot
  generalize s'.slot? i = slot' at hslot
  cases hslot with
  | none => rfl
  | some h => exact hq _ _ h

theorem runningCount_alike (hs : b.Alike s s') : s'.runningCount = s.runningCount := by
  rw [State.runningCount, State.runningCount, ← State.length_placesWith, ← State.length_placesWith,
    placesWith_alike hs fun _ _ ↦ Bond.Slots.isRunning]

/-- Ended work is settled alike. -/
theorem settle_alike {places places' : List (Place ι)} (h : List.Forall₂ b.Places places places')
    (failFast halted : Bool) :
    List.Forall₂ b.Places (State.settle failFast halted places).places
        (State.settle failFast halted places').places ∧
      (State.settle failFast halted places').notes = (State.settle failFast halted places).notes ∧
      (State.settle failFast halted places').halted = (State.settle failFast halted places).halted ∧
      (State.settle failFast halted places').abort = (State.settle failFast halted places).abort := by
  induction h generalizing halted with
  | nil => exact ⟨.nil, rfl, rfl, rfl⟩
  | cons hplace htail ih =>
    cases hplace with
    | mk c hslots =>
      have hfinish := hslots.finish?
      unfold State.settle
      dsimp only
      generalize Slot.finish? _ = f at hfinish
      generalize Slot.finish? _ = f' at hfinish
      cases hfinish with
      | none =>
        obtain ⟨hplaces, hnotes, hhalted, habort⟩ := ih halted
        exact ⟨.cons (.mk c hslots) hplaces, hnotes, hhalted, habort⟩
      | some h =>
        cases h with
        | interrupted | failed => exact ⟨.cons (.mk c hslots) htail, rfl, rfl, rfl⟩
        | @outcome o _ h =>
          cases h with
          | mk hd =>
            obtain ⟨hplaces, hnotes, hhalted, habort⟩ := ih (halted || failFast && halting o.status)
            refine ⟨.cons (.mk c (.settled (.mk o hd))) hplaces, ?_, hhalted, habort⟩
            dsimp only
            rw [hnotes]

/-! ## Turns of the coordinator -/

section Coordinator

variable (h : setup.Resembles b setup')
include h

theorem emitSkips_alike (hs : b.Alike s s') (places : List Nat) :
    b.Alike (emitSkips setup places s).1 (emitSkips setup' places s').1 ∧
      (emitSkips setup places s).2 = none ∧ (emitSkips setup' places s').2 = none := by
  induction places generalizing s s' with
  | nil => exact ⟨hs, rfl, rfl⟩
  | cons i places ih =>
    have hplace := hs.place? i
    unfold emitSkips
    generalize s.places[i]? = p at hplace
    generalize s'.places[i]? = p' at hplace
    cases hplace with
    | none => exact ih hs
    | some hplace =>
      cases hplace with
      | mk c hslots =>
        dsimp only
        rw [h.quiet.emit, h.quiet'.emit]
        exact ih ((hs.note _).note _)

theorem complete_alike (hs : b.Alike s s') : b.Alike (complete setup s) (complete setup' s') := by
  obtain ⟨hemitted, hnone, hnone'⟩ := emitSkips_alike h hs (s.placesWith Slot.isPending)
  unfold complete
  dsimp only
  rw [placesWith_alike hs fun _ _ ↦ Bond.Slots.isPending, hs.cancelled]
  generalize emitSkips setup _ s = emitted at hemitted hnone
  generalize emitSkips setup' _ s' = emitted' at hemitted hnone'
  obtain ⟨s₁, _⟩ := emitted
  obtain ⟨s₁', _⟩ := emitted'
  obtain rfl := hnone
  obtain rfl := hnone'
  dsimp only
  refine ((hemitted.setPlaces (forall₂_map hemitted.places fun p p' hp ↦ ?_)).info _ _ _ _).setCoordinator
    _
  cases hp with
  | mk c hslots =>
    cases hslots with
    | pending => exact .mk c (.settled (.mk _ (h.same _ _)))
    | running w hstage => exact .mk c (.running w hstage)
    | settled ho => exact .mk c (.settled ho)

omit h in
theorem drain_alike (hs : b.Alike s s') (cause : Option Abort) :
    b.Alike (drain cause s) (drain cause s') := by
  have hinterrupted (places : List Nat) {s s' : State σ ι} (hs : b.Alike s s') :
      b.Alike (places.foldl (fun s i ↦ interrupt i s) s) (places.foldl (fun s i ↦ interrupt i s) s') := by
    induction places generalizing s s' with
    | nil => exact hs
    | cons i places ih => exact ih (interrupt_alike hs i)
  have hnoticed (places : List Nat) {s s' : State σ ι} (hs : b.Alike s s') :
      b.Alike (places.foldl (fun s _ ↦ s.enqueue (.notice s.epoch)) s)
        (places.foldl (fun s _ ↦ s.enqueue (.notice s.epoch)) s') := by
    induction places generalizing s s' with
    | nil => exact hs
    | cons i places ih =>
      rw [List.foldl_cons, List.foldl_cons, hs.epoch]
      exact ih (hs.enqueue _)
  unfold drain
  dsimp only
  rw [placesWith_alike hs fun _ _ ↦ Bond.Slots.isRunning]
  have hall := hinterrupted (s.placesWith Slot.isRunning)
    (hs.await (.draining (s.placesWith Slot.isRunning).length cause))
  rw [placesWith_alike hall fun _ _ ↦ Bond.Slots.finish?_isSome]
  exact hnoticed _ hall

theorem concludeDrain_alike (hs : b.Alike s s') (cause : Option Abort) :
    b.Alike (concludeDrain setup cause s) (concludeDrain setup' cause s') := by
  have hlost : s'.placesWith (fun slot ↦ slot.isRunning && !slot.kept) =
      s.placesWith fun slot ↦ slot.isRunning && !slot.kept :=
    placesWith_alike hs fun _ _ hslots ↦ by rw [hslots.isRunning, hslots.kept]
  obtain ⟨hemitted, hnone, hnone'⟩ :=
    emitSkips_alike h hs (s.placesWith fun slot ↦ slot.isRunning && !slot.kept)
  unfold concludeDrain
  rw [hlost]
  generalize emitSkips setup _ s = emitted at hemitted hnone
  generalize emitSkips setup' _ s' = emitted' at hemitted hnone'
  obtain ⟨s₁, _⟩ := emitted
  obtain ⟨s₁', _⟩ := emitted'
  obtain rfl := hnone
  obtain rfl := hnone'
  cases cause with
  | some abort => exact hemitted.setCoordinator _
  | none =>
    refine complete_alike h (hemitted.setPlaces (forall₂_map hemitted.places fun p p' hp ↦ ?_))
    cases hp with
    | mk c hslots =>
      cases hslots with
      | pending => exact .mk c .pending
      | settled ho => exact .mk c (.settled ho)
      | running w hstage =>
        obtain ⟨_, _, _, _, stage⟩ := w
        cases hstage with
        | fresh | suspended => exact .mk c (.settled (.mk _ (h.same _ _)))
        | finished hf =>
          cases hf with
          | outcome ho => exact .mk c (.settled ho)
          | interrupted | failed => exact .mk c (.settled (.mk _ (h.same _ _)))

omit h in
theorem launch_alike (hs : b.Alike s s') (free : Nat) : b.Alike (launch free s) (launch free s') := by
  unfold launch
  rw [placesWith_alike hs fun _ _ ↦ Bond.Slots.isPending]
  generalize (s.placesWith Slot.isPending).take free = places
  induction places generalizing s s' with
  | nil => exact hs
  | cons i places ih =>
    rw [List.foldl_cons, List.foldl_cons, hs.now]
    exact ih ((hs.setWorker i (w := { started := s.now }) .fresh).enqueue _)

theorem fill_alike (hs : b.Alike s s') : b.Alike (fill setup s) (fill setup' s') := by
  have hfilled : b.Alike (s.filled setup) (s'.filled setup') := by
    rw [State.filled, State.filled, hs.halted, hs.cancelled, h.policy, runningCount_alike hs]
    split
    · exact hs
    · exact launch_alike hs _
  rw [fill_eq, fill_eq, runningCount_alike hfilled]
  split
  · exact complete_alike h hfilled
  · exact hfilled.await _

theorem collected_alike (hs : b.Alike s s') :
    b.Alike (s.collected setup) (s'.collected setup') ∧ s'.abort? setup' = s.abort? setup := by
  obtain ⟨hplaces, hnotes, hhalted, habort⟩ :=
    settle_alike hs.places setup.policy.failFast s.halted
  rw [State.collected, State.collected, State.abort?, State.abort?, hs.halted, h.policy]
  dsimp only
  rw [hnotes, hhalted]
  exact ⟨((hs.setPlaces hplaces).setHalted _).noteSame _, habort⟩

theorem coordinate_alike (hs : b.Alike s s') :
    b.Alike (coordinate setup s) (coordinate setup' s') := by
  obtain ⟨hcollected, habort⟩ := collected_alike h hs
  unfold coordinate
  rw [hs.coordinator]
  split
  · rw [collect_eq, collect_eq, habort]
    split
    · exact drain_alike hcollected _
    · have hnoted : b.Alike ((s.collected setup).note (s.collected setup).cancelNote)
          ((s'.collected setup').note (s'.collected setup').cancelNote) := by
        rw [State.cancelNote, State.cancelNote, runningCount_alike hcollected]
        exact hcollected.note _
      rw [hs.cancelled, runningCount_alike hcollected]
      split
      · split
        · exact concludeDrain_alike h hnoted _
        · exact drain_alike hnoted _
      · exact fill_alike h hcollected
  · exact concludeDrain_alike h hs _
  · exact hs

/-! ## Whole runs -/

/-- The runs part when an attempt of the first is interrupted. -/
theorem step_alike (hs : b.Alike s s') : b.Alike (step setup s) (step setup' s') ∨
    b.parting ∧ ∃ i, (step setup s).finish? i = some .interrupted := by
  have hqueue : s'.queue = s.queue := by
    cases hs
    rfl
  unfold step
  rw [hqueue]
  split
  · next t queue _ =>
    have hrest : b.Alike { s with queue := queue } { s' with queue := queue } := by
      cases hs with
      | mk hshared hplaces hremarks => exact .mk hshared hplaces hremarks
    cases t with
    | work i => exact (work_alike h hrest i).imp id fun ⟨hparting, hfinish⟩ ↦ ⟨hparting, i, hfinish⟩
    | expire i n => exact .inl (expire_alike hrest i n)
    | ring i n alarm => exact .inl (ring_alike hrest i n alarm)
    | cancel => exact .inl (cancel_alike hrest)
    | watch => exact .inl (watch_alike hrest)
    | notice e => exact .inl (notice_alike hrest e)
    | coordinate => exact .inl (coordinate_alike h hrest)
  · cases hs with
    | mk hshared hplaces hremarks => exact .inl (.mk hshared hplaces hremarks)

omit h in
theorem Bond.Alike.isDone (hs : b.Alike s s') : s'.isDone = s.isDone := by
  rw [State.isDone, State.isDone, hs.coordinator]

theorem steps_alike (hs : b.Alike s s') (n : Nat) : b.Alike (steps setup n s) (steps setup' n s') ∨
    b.parting ∧ ∃ m i, (steps setup m s).finish? i = some .interrupted := by
  induction n generalizing s s' with
  | zero => exact .inl hs
  | succ n ih =>
    rw [steps, steps, hs.isDone]
    cases hdone : s.isDone with
    | true => exact .inl hs
    | false =>
      obtain hstep | ⟨hparting, i, hfinish⟩ := step_alike h hs
      · obtain halike | ⟨hparting, m, i, hfinish⟩ := ih hstep
        · exact .inl halike
        · exact .inr ⟨hparting, m + 1, i, by rwa [steps, hdone]⟩
      · exact .inr ⟨hparting, 1, i, by rw [steps, hdone]; exact hfinish⟩

theorem begin_alike {shared shared' : σ} (hshared : b.shared shared shared')
    (cancellation : Cancellation) (now : Float) (components : List String) :
    b.Alike (begin setup cancellation now shared components)
      (begin setup' cancellation now shared' components) := by
  rw [begin_eq, begin_eq]
  refine fill_alike h ?_
  have hopening : State.opening setup' cancellation now shared' components =
      { State.opening setup cancellation now shared components with shared := shared' } := by
    unfold State.opening
    rw [h.policy]
  rw [hopening]
  exact .mk hshared (List.forall₂_same.2 fun p hp ↦ by
    obtain ⟨c, -, rfl⟩ := List.mem_map.1 hp
    exact .mk c .pending) rfl

theorem final_alike {shared shared' : σ} (hshared : b.shared shared shared')
    (cancellation : Cancellation) (now : Float) (components : List String) :
    b.Alike (final setup cancellation now shared components)
        (final setup' cancellation now shared' components) ∨
      b.parting ∧ ∃ n i, (steps setup n (begin setup cancellation now shared components)).finish? i =
        some .interrupted := by
  have hbound : turnBound setup' cancellation components = turnBound setup cancellation components := by
    rw [turnBound, turnBound, h.policy, h.turns]
  rw [final, final, hbound]
  exact steps_alike h (begin_alike h hshared cancellation now components) _

end Coordinator

/-- What runs that are alike leave behind. -/
theorem ended_alike (hs : b.Alike s s') :
    (∀ abort, s.ended.report = .error abort ↔ s'.ended.report = .error abort) ∧
      (∀ report report', s.ended.report = .ok report → s'.ended.report = .ok report' →
        List.Forall₂ b.Outcomes report.outcomes report'.outcomes) ∧
      s'.ended.journal.remarks = s.ended.journal.remarks := by
  have houtcomes : List.Forall₂ b.Outcomes s.report.outcomes s'.report.outcomes :=
    List.rel_filterMap (fun p p' hp ↦ by
      cases hp with
      | mk c hslots =>
        cases hslots with
        | pending | running => exact .none
        | settled ho => exact .some ho) hs.places
  have hremarks : s'.journal.remarks = s.journal.remarks := by
    cases hs
    assumption
  rw [State.ended, State.ended, hs.coordinator]
  refine ⟨fun abort ↦ ?_, fun report report' h h' ↦ ?_, ?_⟩
  · split <;> simp
  · dsimp only at h h'
    generalize s.coordinator = coordinator at h h'
    rcases coordinator with _ | _ | _ | abort
    · exact Except.ok.inj h ▸ Except.ok.inj h' ▸ houtcomes
    · exact Except.ok.inj h ▸ Except.ok.inj h' ▸ houtcomes
    · exact Except.ok.inj h ▸ Except.ok.inj h' ▸ houtcomes
    · cases h
  · rw [Journal.remarks, Journal.remarks, List.filter_reverse, List.filter_reverse]
    exact congrArg List.reverse hremarks

end Run

end Testbed
