import Testbed.Proofs.Runner.Alone
import Testbed.Proofs.Runner.Executions
import Testbed.Proofs.Text.Utf8

/-!
# Output of processes

A process that nobody interrupts is read to the end.  However its output is cut into pieces, and
whenever they arrive, the text that comes of it is that of all the bytes together, and the bytes that
are passed on are the same bytes in the same order.  So a tool judges the whole output.
-/

namespace Testbed

open Clock Activity

namespace Job

/-! ## Exits of a process's own -/

/-- The code with which a process exits that is not asked to. -/
def Child.ownCode (c : Child) : Int :=
  c.code.getD c.behaviour.code

theorem Child.ownCode_exit (c : Child) : (c.exit .own).ownCode = c.ownCode := by
  cases hcode : c.code <;> simp [exit, ownCode, codeOf, hcode]

theorem Child.ownCode_await (c : Child) : c.await.1.ownCode = c.ownCode := by
  unfold await
  split
  · rfl
  · dsimp only
    split
    · rfl
    · unfold exitAfter
      split
      · exact ownCode_exit _
      · rfl

theorem Child.ownCode_of_code {c : Child} {code : Int} (h : c.code = some code) : c.ownCode = code := by
  rw [ownCode, h, Option.getD_some]

/-- A process that is told of its own exit has exited with its own code. -/
theorem Child.hear_own (c : Child) : (c.hear [(Alarm.exit .own).number]).code = some c.ownCode := by
  change (c.exit .own).code = some c.ownCode
  cases hcode : c.code <;> simp [exit, ownCode, codeOf, hcode]

/-! ## Pieces of output -/

theorem flatten_pieces (limit : Nat) (bytes : List UInt8) : (pieces limit bytes).flatten = bytes := by
  fun_induction pieces limit bytes with
  | case1 => simp
  | case2 bytes _ ih => rw [List.flatten_cons, ih, List.take_append_drop]

namespace Execution

variable {c : Child} {passOn : Bool} {read : List (List UInt8)} {rest : List (Float × List UInt8)}
  {a : Alone Execution Result}

/-- Bytes that are passed on arrive as they are. -/
theorem passedOn_passing (passOn : Bool) (bytes : List UInt8) :
    Note.passedOn (passing passOn bytes) = if passOn then bytes else [] := by
  unfold passing
  split
  · rw [Note.passedOn, List.flatMap_map]
    exact List.flatMap_id.trans (flatten_pieces readLimit bytes)
  · rfl

theorem readOn_arrived {delay : Float} {bytes : List UInt8} (hdelay : delay ≤ 0) (hne : bytes ≠ []) :
    readOn c passOn read ((delay, bytes) :: rest) =
      { readOn c passOn (bytes :: read) rest with
        notes := passing passOn bytes ++ (readOn c passOn (bytes :: read) rest).notes } := by
  rw [readOn, if_pos hdelay, if_neg (by simpa using hne)]

theorem readOn_awaited {delay : Float} {bytes : List UInt8} (hdelay : ¬ delay ≤ 0) :
    readOn c passOn read ((delay, bytes) :: rest) =
      { next := .waits (.reading c passOn read bytes rest) [] [(Alarm.output.number, delay)] } := by
  rw [readOn, if_neg hdelay]

/-- What arrives is read, and the reading goes on. -/
theorem resume_reading (bytes : List UInt8) :
    (reading c passOn read bytes rest).resume { rung := [Alarm.output.number] } =
      readOn c passOn read ((0.0, bytes) :: rest) :=
  rfl

/-- An execution on its own ends as it should: with a code and a text, having passed some bytes on. -/
def EndsWith (a e : Alone Execution Result) (code : Int) (text : String) (passed : List UInt8) : Prop :=
  e.result? = some (.finished code text) ∧ e.journal.passedOn = a.journal.passedOn ++ passed

/-- Bytes that are passed on before the rest come first. -/
theorem EndsWith.of_noted {e : Alone Execution Result} {notes : List Note} {code : Int} {text : String}
    {passed : List UInt8} (h : EndsWith (a.noted notes) e code text passed) :
    EndsWith a e code text (Note.passedOn notes ++ passed) := by
  obtain ⟨hresult, hpassed⟩ := h
  refine ⟨hresult, ?_⟩
  rw [hpassed, Alone.passedOn_noted, List.append_assoc]

theorem endsWith_of_ends {reply : Reply Execution Result} {code : Int} {text : String}
    (hnext : reply.next = .ends (.finished code text)) (hnotes : reply.notes = []) (turns : Nat) :
    EndsWith a ((a.accept reply).run (fun _ e wake ↦ e.resume wake) turns) code text [] := by
  constructor
  · exact Alone.result?_run_accept_of_ends hnext a _ turns
  · have hends : (a.accept reply).next = .ends (.finished code text) := hnext
    rw [Alone.run_of_ends hends, Alone.passedOn_accept, hnotes]
    rfl

/-- When all is read, the exit is awaited. -/
theorem run_accept_awaitExit (idle : a.IsIdle) (hexit : c.behaviour.exitDelay.isNaN = false)
    (hawaited : c.awaited = false) (hasked : c.asked = false) (read : List (List UInt8)) {turns : Nat}
    (hturns : 0 < turns) :
    EndsWith a ((a.accept { next := awaitExit c read }).run (fun _ e wake ↦ e.resume wake) turns)
      c.ownCode (outputOf read) [] := by
  obtain hcode | ⟨hbehaviour, hcode, halarms⟩ := Child.await_cases hawaited hasked
  · obtain ⟨code, hcode⟩ := Option.isSome_iff_exists.1 hcode
    apply endsWith_of_ends
    · rw [← c.ownCode_await, Child.ownCode_of_code hcode, awaitExit]
      dsimp only
      rw [hcode]
    · rfl
  · have hnext : awaitExit c read =
        .waits (.exiting c.await.1 (outputOf read)) [] [((Alarm.exit .own).number, c.behaviour.exitDelay)] := by
      rw [awaitExit]
      dsimp only
      rw [hcode, halarms]
    have hdelay : 0 ≤ c.behaviour.exitDelay := by
      have hdue := Child.await_due hexit
      rw [halarms] at hdue
      exact (List.forall_mem_cons.1 hdue).1
    obtain ⟨turns, rfl⟩ := Nat.exists_eq_add_of_le' hturns
    obtain ⟨b, -, hjournal, hrun⟩ := Alone.run_accept_of_waits idle { next := awaitExit c read } hnext hdelay
      (fun _ e wake ↦ e.resume wake) turns
    have hpassed : b.journal.passedOn = a.journal.passedOn ++ [] := by
      rw [hjournal, Alone.passedOn_accept]
      rfl
    rw [hrun, EndsWith, ← hpassed, ← List.append_nil b.journal.passedOn]
    apply endsWith_of_ends
    · simp only [resume, Child.hear_own, Child.ownCode_await, Bool.false_eq_true, if_false]
    · simp only [resume, Child.hear_own, Bool.false_eq_true, if_false]

/-- Pieces of output that come at some time and are not empty. -/
def AreRead (rest : List (Float × List UInt8)) : Prop :=
  ∀ piece ∈ rest, piece.1.isNaN = false ∧ piece.2 ≠ []

/-- All pieces are read, and then the process exits: by induction on the pieces, each of which is
waited for once at most. -/
theorem run_accept_readOn (idle : a.IsIdle) (hexit : c.behaviour.exitDelay.isNaN = false)
    (hawaited : c.awaited = false) (hasked : c.asked = false) (read : List (List UInt8))
    (hrest : AreRead rest) {turns : Nat} (hturns : rest.length < turns) :
    EndsWith a ((a.accept (readOn c passOn read rest)).run (fun _ e wake ↦ e.resume wake) turns)
      c.ownCode (outputOf ((rest.map Prod.snd).reverse ++ read))
      (if passOn then (rest.map Prod.snd).flatten else []) := by
  induction rest generalizing read turns a with
  | nil =>
    have hend := run_accept_awaitExit idle hexit hawaited hasked read (Nat.zero_lt_of_lt hturns)
    cases passOn <;> exact hend
  | cons piece rest ih =>
    obtain ⟨delay, bytes⟩ := piece
    obtain ⟨⟨hnan, hne⟩, hrest⟩ := List.forall_mem_cons.1 hrest
    rw [List.length_cons] at hturns
    have harrived {b : Alone Execution Result} (idle : b.IsIdle) {delay : Float} (hdelay : delay ≤ 0)
        {turns : Nat} (hturns : rest.length < turns) :
        EndsWith b ((b.accept (readOn c passOn read ((delay, bytes) :: rest))).run
          (fun _ e wake ↦ e.resume wake) turns) c.ownCode
            (outputOf ((((delay, bytes) :: rest).map Prod.snd).reverse ++ read))
            (if passOn then (((delay, bytes) :: rest).map Prod.snd).flatten else []) := by
      have hend := (ih (idle.noted (passing passOn bytes)) (bytes :: read) hrest hturns).of_noted
      rw [passedOn_passing] at hend
      rw [readOn_arrived hdelay hne, Alone.accept_notes, List.map_cons, List.reverse_cons,
        List.append_assoc]
      cases passOn <;> exact hend
    by_cases hdelay : delay ≤ 0
    · exact harrived idle hdelay (by omega)
    · obtain ⟨turns, rfl⟩ := Nat.exists_eq_add_of_le' (Nat.zero_lt_of_lt hturns)
      obtain ⟨b, bIdle, hjournal, hrun⟩ := Alone.run_accept_of_waits idle
        { next := .waits (.reading c passOn read bytes rest) [] [(Alarm.output.number, delay)] }
        rfl (nonneg_of_not_le hnan hdelay) (fun _ e wake ↦ e.resume wake) turns
      have hpassed : b.journal.passedOn = a.journal.passedOn := by
        rw [hjournal, Alone.passedOn_accept]
        exact List.append_nil _
      rw [readOn_awaited hdelay, hrun, resume_reading, EndsWith, ← hpassed]
      exact harrived bIdle (by decide +kernel) (by omega)

end Execution

/-! ## Executions on their own -/

/-- The code with which a process exits that is not asked to. -/
def Behaviour.ownCode (b : Behaviour) : Int :=
  b.exited.getD b.code

/-- A process that can be started writes some bytes, in pieces that are not empty. -/
structure Behaviour.Writes (b : Behaviour) (bytes : List UInt8) : Prop where
  starts : b.refusal = none
  piped : b.piped = true
  pieces : Execution.AreRead b.output
  exit : b.exitDelay.isNaN = false
  bytes : (b.output.map Prod.snd).flatten = bytes

namespace Execution

variable {b : Behaviour} {bytes : List UInt8} {a : Alone Execution Result}

/-- The whole output is read, and then the process exits. -/
theorem run_accept_start (h : b.Writes bytes) (idle : a.IsIdle) (launch : Launch) (passOn : Bool)
    {turns : Nat} (hturns : b.output.length < turns) :
    EndsWith a ((a.accept (start b launch passOn)).run (fun _ e wake ↦ e.resume wake) turns)
      b.ownCode (Text.decodeLossy bytes) (if passOn then bytes else []) := by
  have hread : outputOf ((b.output.map Prod.snd).reverse ++ []) = Text.decodeLossy bytes := by
    rw [outputOf, List.append_nil, List.reverse_reverse, h.bytes]
  unfold start
  simp only [h.starts, h.piped, if_true]
  rw [Alone.accept_notes, ← hread, ← h.bytes]
  exact (run_accept_readOn (c := .start b) (idle.noted _) h.exit rfl rfl [] h.pieces hturns).of_noted

theorem run_start (h : b.Writes bytes) (launch : Launch) (passOn : Bool) {now : Float}
    (hnow : IsInstant now) {turns : Nat} (hturns : b.output.length < turns) :
    let ended := (Alone.start now [] (start b launch passOn)).run (fun _ e wake ↦ e.resume wake) turns
    ended.result? = some (.finished b.ownCode (Text.decodeLossy bytes)) ∧
      ended.journal.passedOn = if passOn then bytes else [] :=
  run_accept_start h ⟨hnow, rfl, rfl⟩ launch passOn hturns

/-- An execution on its own that nobody interrupts. -/
def alone (b : Behaviour) (launch : Launch) (passOn : Bool) (now : Float) : Alone Execution Result :=
  (Alone.start now [] (start b launch passOn)).run (fun _ e wake ↦ e.resume wake) (turnBound b)

end Execution

end Job

/-! ## Invocations on their own -/

/-- An invocation on its own that nobody interrupts. -/
def Runner.invoke {σ ι : Type} (r : Runner σ ι) (shared : σ) (now : Float) (component : String)
    (capture : Bool) : Alone ι Ending :=
  let (shared, reply) := r.start shared now component capture
  (Alone.start now [] reply).run (fun now i wake ↦ (r.resume shared now i wake).2) r.turns

namespace Tool

variable {t : Tool} {around : Surroundings} {b : Job.Behaviour} {bytes : List UInt8}

/-- What a tool logs about the end of a process is no output. -/
theorem passedOn_reply (logs : t.LogsEnds) (component : String) (capture : Bool)
    (r : Reply Job.Execution Job.Result) :
    Note.passedOn (t.reply component capture r).notes = Note.passedOn r.notes := by
  have hafter : Note.passedOn (t.notesAfter component r.next) = [] := by
    refine List.flatMap_eq_nil_iff.2 fun n hn ↦ ?_
    obtain ⟨line, rfl⟩ := notesAfter_log logs component r.next n hn
    rfl
  rw [reply, Note.passedOn_append, hafter, List.append_nil]

/-- A tool's invocation ends with what the whole output of its process means. -/
theorem invoke_ends (logs : t.LogsEnds) (bounded : around.IsBounded) {n : Nat}
    (h : (around.behaviour n).Writes bytes) {now : Float} (hnow : IsInstant now) (component : String)
    (capture : Bool) :
    let invoked := (t.runner around).invoke n now component capture
    invoked.result? = some (.answered {
      status := t.judge (around.behaviour n).ownCode (Text.decodeLossy bytes)
      diagnostics := if capture then some (Text.decodeLossy bytes) else none }) ∧
      invoked.journal.passedOn = if capture then [] else bytes := by
  have hturns : (around.behaviour n).output.length < (t.runner around).turns :=
    Nat.lt_of_le_of_lt (bounded n) (Nat.lt_add_of_pos_right (by decide))
  obtain ⟨hresult, hpassed⟩ :=
    Job.Execution.run_start h (t.launch around component) (!capture) hnow hturns
  have hmirrors : Alone.Mirrors (fun execution ↦ ({ component, capture, execution } : Invocation))
      (t.ending capture) _ ((t.runner around).invoke n now component capture) :=
    (Alone.Mirrors.start rfl (passedOn_reply logs component capture _) now []).run
      (fun _ _ _ ↦ rfl) (fun _ e wake ↦ passedOn_reply logs component capture (e.resume wake)) _
  constructor
  · exact hmirrors.result?.trans (by rw [hresult]; rfl)
  · refine hmirrors.passedOn.trans (hpassed.trans ?_)
    cases capture <;> rfl

end Tool

/-! ## Judgements of the whole output -/

namespace Cargo

variable (code : Int) (output : String)

theorem judge_eq_passed_iff : judge code output = .passed ↔ code = 0 := by
  unfold judge
  split
  · simpa
  · split <;> simpa

theorem judge_eq_errored_iff :
    judge code output = .errored ↔ code ≠ 0 ∧ unknownPackage.toList <:+: output.toList := by
  rw [← Text.occurs_iff]
  unfold judge
  split
  · simp_all
  · split <;> simp_all

theorem judge_eq_failed_iff :
    judge code output = .failed ↔ code ≠ 0 ∧ ¬unknownPackage.toList <:+: output.toList := by
  rw [← Text.occurs_iff]
  unfold judge
  split
  · simp_all
  · split <;> simp_all

end Cargo

namespace Command

variable (code : Int) (output : String)

theorem judge_eq_passed_iff : judge code output = .passed ↔ code = 0 := by
  unfold judge
  split <;> simpa

theorem judge_eq_failed_iff : judge code output = .failed ↔ code ≠ 0 := by
  unfold judge
  split <;> simpa

end Command

/-- Neither the pieces in which a process writes nor their times matter: what is read is the text of
all the bytes, what is passed on is all of them in order, and each kind of tool judges by the code and
that text. -/
theorem whole_output_decides {b : Job.Behaviour} {bytes : List UInt8} (h : b.Writes bytes)
    {now : Float} (hnow : IsInstant now) :
    (∀ (launch : Launch) (passOn : Bool),
      let ended := Job.Execution.alone b launch passOn now
      ended.result? = some (.finished b.ownCode (Text.decodeLossy bytes)) ∧
        ended.journal.passedOn = if passOn then bytes else []) ∧
    (∀ text, bytes = Text.encode text → Text.decodeLossy bytes = text) ∧
    ∀ (around : Surroundings) (n : Nat) (component : String) (capture : Bool),
      around.IsBounded → around.behaviour n = b →
      (∀ (cargo : Cargo) (executable : String), ∃ answer : Answer,
        let invoked := ((cargo.tool executable).runner around).invoke n now component capture
        invoked.result? = some (.answered answer) ∧
          (answer.status = .passed ↔ b.ownCode = 0) ∧
          (answer.status = .errored ↔ b.ownCode ≠ 0 ∧
            Cargo.unknownPackage.toList <:+: (Text.decodeLossy bytes).toList) ∧
          (answer.status = .failed ↔ b.ownCode ≠ 0 ∧
            ¬Cargo.unknownPackage.toList <:+: (Text.decodeLossy bytes).toList) ∧
          answer.diagnostics = (if capture then some (Text.decodeLossy bytes) else none) ∧
          invoked.journal.passedOn = if capture then [] else bytes) ∧
      ∀ (command : Command) (executable : String), ∃ answer : Answer,
        let invoked := ((command.tool executable).runner around).invoke n now component capture
        invoked.result? = some (.answered answer) ∧
          (answer.status = .passed ↔ b.ownCode = 0) ∧
          (answer.status = .failed ↔ b.ownCode ≠ 0) ∧
          answer.diagnostics = (if capture then some (Text.decodeLossy bytes) else none) ∧
          invoked.journal.passedOn = if capture then [] else bytes := by
  refine ⟨?read, ?text, ?judged⟩
  case read =>
    intro launch passOn
    exact Job.Execution.run_start h launch passOn hnow (Nat.lt_add_of_pos_right (by decide))
  case text =>
    rintro text rfl
    exact Text.decodeLossy_encode text
  case judged =>
    rintro around n component capture bounded rfl
    constructor
    · intro cargo executable
      obtain ⟨hresult, hpassed⟩ :=
        Tool.invoke_ends (cargo.tool_logsEnds executable) bounded h hnow component capture
      exact ⟨_, hresult, Cargo.judge_eq_passed_iff _ _, Cargo.judge_eq_errored_iff _ _,
        Cargo.judge_eq_failed_iff _ _, rfl, hpassed⟩
    · intro command executable
      obtain ⟨hresult, hpassed⟩ :=
        Tool.invoke_ends (command.tool_logsEnds executable) bounded h hnow component capture
      exact ⟨_, hresult, Command.judge_eq_passed_iff _ (Text.decodeLossy bytes),
        Command.judge_eq_failed_iff _ (Text.decodeLossy bytes), rfl, hpassed⟩

/-- The euro sign, the mark of an unknown package and half a character, cut within the sign and
within the mark. -/
def Job.Behaviour.cut : Job.Behaviour where
  output := [(0.0, [0xE2, 0x82]), (1.5, 0xAC :: "did not match an".toList.map (UInt8.ofNat ·.toNat)),
    (0.0, "y packages".toList.map (UInt8.ofNat ·.toNat) ++ [0xF0, 0x9F]), (0.25, [0x0A])]
  exitDelay := 0.5
  code := 101

/-- Surroundings in which every process writes so. -/
def Surroundings.cut : Surroundings where
  files := { file? _ := none, isDirectory _ := true }
  environment := []
  program := some
  behaviour _ := .cut
  pieces := 4

/-- What was cut is read as a whole: the package is unknown, and half a character at the end of a
piece is replaced once. -/
theorem whole_output_decides_cut :
    Job.Behaviour.cut.Writes (Job.Behaviour.cut.output.map Prod.snd).flatten ∧ IsInstant 0.0 ∧
      Surroundings.cut.IsBounded ∧ Surroundings.cut.behaviour 0 = .cut ∧
      ∃ answer : Answer,
        (((({} : Cargo).tool "cargo").runner .cut).invoke 0 0.0 "api" true).result? =
          some (.answered answer) ∧
        answer.status = .errored ∧
        answer.diagnostics = some "€did not match any packages\ufffd\n" := by
  have hwrites : Job.Behaviour.cut.Writes (Job.Behaviour.cut.output.map Prod.snd).flatten := by
    refine ⟨rfl, rfl, ?_, by decide +kernel, rfl⟩
    unfold Job.Execution.AreRead
    decide +kernel
  have hzero : IsInstant 0.0 := by decide +kernel
  have hbounded : Surroundings.cut.IsBounded := fun _ ↦ Nat.le_refl 4
  have htext : Text.decodeLossy (Job.Behaviour.cut.output.map Prod.snd).flatten =
      "€did not match any packages\ufffd\n" := by
    decide +kernel
  refine ⟨hwrites, hzero, hbounded, rfl, ?_⟩
  obtain ⟨-, -, hjudged⟩ := whole_output_decides hwrites hzero
  obtain ⟨answer, hanswer, -, herrored, -, hdiagnostics, -⟩ :=
    (hjudged .cut 0 "api" true hbounded rfl).1 {} "cargo"
  refine ⟨answer, hanswer, herrored.2 ⟨by decide +kernel, ?_⟩, ?_⟩
  · rw [htext]
    exact ⟨"€".toList, "\ufffd\n".toList, by decide +kernel⟩
  · rw [hdiagnostics, if_pos rfl, htext]

end Testbed
