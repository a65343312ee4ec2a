import Mathlib.Data.List.DropRight
import Mathlib.Data.List.Forall2
import Mathlib.Data.List.Perm.Basic
import Testbed.Proofs.Text.Search
import Testbed.Report.Summary

/-!
# Agreement of the renderings of a report

The counts line, the document and the summary are made from the outcomes independently.  What can be
read off them is the same: the counts, which add up to the number of outcomes, the verdict, and the
components of each status.  The summary has a line for every outcome, from which its status and its
component can be read back.
-/

namespace Testbed

open Data (Value Entries)

/-- The statuses that an outcome of a run can have. -/
def Status.known : List Status :=
  [.passed, .failed, .errored, .skipped]

theorem Status.mem_closingStatuses_iff :
    ∀ s ∈ Status.known, (s ∈ closingStatuses ↔ s ≠ .passed) := by
  decide

/-- Parting a list by keys loses nothing that has one of the keys, and doubles nothing. -/
theorem flatMap_filter_perm {α κ : Type} [DecidableEq κ] {keys : List κ} (nodup : keys.Nodup)
    (key : α → κ) (l : List α) :
    (keys.flatMap fun k ↦ l.filter (key · = k)).Perm (l.filter (key · ∈ keys)) := by
  induction keys with
  | nil => simp
  | cons k keys ih =>
    obtain ⟨hk, nodup⟩ := List.nodup_cons.1 nodup
    -- the part of `k` is taken out, and what is left has the other keys, among which `k` is not
    have hsplit := List.filter_append_perm (fun a ↦ key a = k) (l.filter (key · ∈ k :: keys))
    rw [List.filter_filter, List.filter_filter] at hsplit
    have hfirst : l.filter (fun a ↦ decide (key a = k) && decide (key a ∈ k :: keys)) =
        l.filter (key · = k) := by
      apply List.filter_congr
      intro a _
      by_cases ha : key a = k <;> simp [ha]
    have hothers : l.filter (fun a ↦ !decide (key a = k) && decide (key a ∈ k :: keys)) =
        l.filter (key · ∈ keys) := by
      apply List.filter_congr
      intro a _
      by_cases ha : key a = k <;> simp [ha, hk]
    rw [hfirst, hothers] at hsplit
    exact ((ih nodup).append_left _).trans hsplit

namespace Report

variable (r : Report)

/-! ## The parts of a report -/

/-- The outcomes with nothing but their status and their component. -/
def standings : List (Status × String) :=
  r.outcomes.map fun o ↦ (o.status, o.component)

theorem map_componentsWith (s : Status) :
    (r.componentsWith s).map (s, ·) = r.standings.filter (·.1 = s) := by
  rw [componentsWith, standings, List.filter_map, List.map_map]
  apply List.map_congr_left
  intro o ho
  rw [Function.comp_apply, ← of_decide_eq_true (List.mem_filter.1 ho).2]

theorem componentsWith_sublist (s : Status) :
    ((r.componentsWith s).map (s, ·)).Sublist r.standings := by
  rw [map_componentsWith]
  exact List.filter_sublist

theorem componentsWith_perm {statuses : List Status} (nodup : statuses.Nodup) :
    (statuses.flatMap fun s ↦ (r.componentsWith s).map (s, ·)).Perm
      (r.standings.filter (·.1 ∈ statuses)) := by
  simp only [map_componentsWith]
  exact flatMap_filter_perm nodup Prod.fst r.standings

/-- Every outcome has one of the known statuses. -/
def IsKnown : Prop :=
  ∀ o ∈ r.outcomes, o.status ∈ Status.known

instance : Decidable r.IsKnown :=
  inferInstanceAs (Decidable (∀ o ∈ r.outcomes, o.status ∈ Status.known))

variable {r}

theorem IsKnown.mem (known : r.IsKnown) {standing : Status × String}
    (h : standing ∈ r.standings) : standing.1 ∈ Status.known := by
  obtain ⟨o, ho, rfl⟩ := List.mem_map.1 h
  exact known o ho

/-- The components of the four statuses are all components, each once. -/
theorem IsKnown.perm (known : r.IsKnown) :
    (Status.known.flatMap fun s ↦ (r.componentsWith s).map (s, ·)).Perm r.standings := by
  have hperm := r.componentsWith_perm (by decide : Status.known.Nodup)
  rwa [List.filter_eq_self.2 fun standing h ↦ decide_eq_true (known.mem h)] at hperm

/-- The counts of the known statuses add up to the number of outcomes. -/
theorem IsKnown.sum_count (known : r.IsKnown) :
    r.count .passed + r.count .failed + r.count .errored + r.count .skipped = r.outcomes.length := by
  calc
    r.count .passed + r.count .failed + r.count .errored + r.count .skipped =
        (Status.known.flatMap fun s ↦ (r.componentsWith s).map (s, ·)).length := by
      simp [Status.known, Nat.add_assoc]
    _ = r.standings.length := known.perm.length_eq
    _ = r.outcomes.length := by simp [standings]

/-- The components of the statuses with closing lines are those that did not pass. -/
theorem IsKnown.perm_closing (known : r.IsKnown) :
    (closingStatuses.flatMap fun s ↦ (r.componentsWith s).map (s, ·)).Perm
      (r.standings.filter (·.1 ≠ .passed)) := by
  have hperm := r.componentsWith_perm (by decide : closingStatuses.Nodup)
  have hclosing : r.standings.filter (·.1 ∈ closingStatuses) =
      r.standings.filter (·.1 ≠ .passed) := by
    apply List.filter_congr
    intro standing h
    exact decide_eq_decide.2 (Status.mem_closingStatuses_iff standing.1 (known.mem h))
  rwa [hclosing] at hperm

/-! ## The verdict -/

theorem succeeded_iff_count :
    r.succeeded = true ↔ 0 < r.outcomes.length ∧ r.count .passed = r.outcomes.length := by
  rw [succeeded_iff, count, List.countP_eq_length, List.length_pos_iff]
  simp

theorem verdict_eq (r : Report) :
    r.verdict =
      if 0 < r.outcomes.length ∧ r.count .passed = r.outcomes.length then .success else .failure := by
  rw [verdict]
  exact if_congr succeeded_iff_count rfl rfl

/-! ## The counts line -/

/-- What a line says under a name: the rest of the word that begins with the name and an equals
sign. -/
def said? (line name : String) : Option String :=
  (Text.segments [' '] line.toList).findSome? fun word ↦
    ((name ++ "=").toList.isPrefixOf? word).map String.ofList

/-- The words of the counts line. -/
def countWords (r : Report) : List String :=
  ["passed=" ++ toString (r.count .passed), "failed=" ++ toString (r.count .failed),
    "errored=" ++ toString (r.count .errored), "skipped=" ++ toString (r.count .skipped),
    "verdict=" ++ r.verdict.banner]

theorem not_mem_digits {c : Char} (hc : c.isDigit = false) (n : Nat) : c ∉ Nat.toDigits 10 n := by
  intro h
  rw [Nat.isDigit_of_mem_toDigits (by decide) (by decide) h] at hc
  cases hc

theorem blank_not_mem_countWords : ∀ word ∈ r.countWords, ' ' ∉ word.toList := by
  have hbanner : ' ' ∉ r.verdict.banner.toList := by cases r.verdict <;> decide
  have hdigits := not_mem_digits (c := ' ') rfl
  simp [countWords, String.toList_append, hdigits, hbanner]

theorem segments_countsLine (r : Report) :
    Text.segments [' '] r.countsLine.toList = r.countWords.map String.toList := by
  have hsplit : Text.IsSplit [' '] (r.countWords.map String.toList) r.countsLine.toList := by
    refine ⟨?joined, by simp [countWords], ?clean⟩
    case joined =>
      delta countsLine
      simp [countWords, List.intercalate, String.toList_append]
    -- no word holds a blank, so the line falls into these words and no others
    case clean =>
      intro segment h hblank
      obtain ⟨word, hword, rfl⟩ := List.mem_map.1 h
      exact blank_not_mem_countWords word hword (hblank.subset (List.mem_singleton_self ' '))
  have hpattern : Text.Unbordered [' '] := Text.unbordered_cons List.not_mem_nil
  exact (Text.isSplit_segments (List.cons_ne_nil _ _) _).unique hpattern hsplit

theorem said?_count {s : Status} (hs : s ∈ Status.known) :
    said? r.countsLine s.label = some (toString (r.count s)) := by
  rw [said?, segments_countsLine]
  revert s
  simp [Status.known, Status.label, countWords, String.toList_append, List.isPrefixOf?,
    -Nat.toList_repr]

theorem said?_verdict : said? r.countsLine "verdict" = some r.verdict.banner := by
  rw [said?, segments_countsLine]
  simp [countWords, String.toList_append, List.isPrefixOf?]

/-! ## The document -/

/-- What a document holds under a name. -/
def member? : Value → String → Option Value
  | .map entries, name => Entries.get? entries name
  | _, _ => none

theorem member?_count {s : Status} (hs : s ∈ Status.known) :
    member? r.document s.label = some (.int (r.count s)) := by
  revert s
  simp [Status.known, Status.label, member?, document, Entries.get?, List.find?_cons]

/-- A document shows an outcome if it holds each field of it. -/
structure Shows (v : Value) (o : Outcome) : Prop where
  component : member? v "component" = some (.text o.component)
  status : member? v "status" = some (.text o.status.label)
  duration : member? v "duration" = some (match o.duration with
    | .whole n => .int n
    | .real x => .float x)
  attempts : member? v "attempts" = some (.int o.attempts)
  diagnostics : member? v "diagnostics" = some (match o.diagnostics with
    | none => .null
    | some output => .text output)

theorem shows_outcomeDocument (o : Outcome) : Shows (outcomeDocument o) o := by
  constructor <;> rfl

/-! ## The summary -/

/-- Whether a line begins with one of several texts. -/
def opensWith (openings : List String) (line : String) : Bool :=
  openings.any fun opening ↦ opening.toList.isPrefixOf line.toList

/-- How a line about a component begins. -/
def marks : List String :=
  Status.known.map (·.symbol ++ " ")

/-- How a closing line begins. -/
def headings : List String :=
  closingStatuses.map (·.heading ++ ": ")

theorem opensWith_append {openings : List String} {opening : String} (h : opening ∈ openings)
    (rest : String) : opensWith openings (opening ++ rest) = true := by
  rw [opensWith, List.any_eq_true]
  refine ⟨opening, h, ?_⟩
  rw [List.isPrefixOf_iff_prefix, String.toList_append]
  exact List.prefix_append _ _

/-- A start of lines whose first character is that of none of the openings. -/
def Apart (openings : List String) (start : String) : Prop :=
  start.toList ≠ [] ∧
    ∀ opening ∈ openings, opening.toList ≠ [] ∧ opening.toList.head? ≠ start.toList.head?

instance (openings : List String) (start : String) : Decidable (Apart openings start) :=
  inferInstanceAs (Decidable (_ ∧ ∀ opening ∈ openings, _ ∧ _))

theorem not_opensWith_append {openings : List String} {start : String} (h : Apart openings start)
    (rest : String) : opensWith openings (start ++ rest) = false := by
  obtain ⟨hstart, h⟩ := h
  obtain ⟨c, cs, hc⟩ := List.exists_cons_of_ne_nil hstart
  rw [opensWith, List.any_eq_false]
  intro opening hopening
  obtain ⟨hne, hhead⟩ := h opening hopening
  obtain ⟨c', cs', hc'⟩ := List.exists_cons_of_ne_nil hne
  have hcc : c' ≠ c := by simpa [hc, hc'] using hhead
  simp [String.toList_append, hc, hc', hcc]

/-- Below the line about a component, all lines about it are indented. -/
theorem indented {o : Outcome} {line : String} (h : line ∈ o.attemptLines ++ o.outputLines) :
    ∃ rest, line = "  " ++ rest := by
  rw [List.mem_append] at h
  obtain h | h := h
  · rw [Outcome.attemptLines] at h
    split at h
    · exact ⟨"Attempts: " ++ toString o.attempts, by simpa [← String.append_assoc] using h⟩
    · cases h
  · rw [Outcome.outputLines] at h
    split at h
    · cases h
    · obtain rfl | h := List.mem_cons.1 h
      · exact ⟨"Output (last lines):", rfl⟩
      · obtain ⟨text, -, rfl⟩ := List.mem_map.1 h
        exact ⟨"  " ++ text, by rw [← String.append_assoc]; rfl⟩

theorem filter_indented {openings : List String} (h : Apart openings "  ") (o : Outcome) :
    (o.attemptLines ++ o.outputLines).filter (opensWith openings) = [] := by
  rw [List.filter_eq_nil_iff]
  intro line hline
  obtain ⟨rest, rfl⟩ := indented hline
  simp [not_opensWith_append h]

/-- What stands above the lines about components. -/
theorem filter_title {openings : List String} (hrule : Apart openings "=")
    (htitle : Apart openings "Test") :
    [rule, "Test Results Summary:", rule].filter (opensWith openings) = [] := by
  have hline (n : Nat) : opensWith openings (String.ofList (List.replicate (n + 1) '=')) = false := by
    rw [List.replicate_succ, ← List.singleton_append, String.ofList_append]
    exact not_opensWith_append hrule _
  have hrule : opensWith openings rule = false := hline 79
  have htitle : opensWith openings "Test Results Summary:" = false :=
    not_opensWith_append htitle " Results Summary:"
  simp [hrule, htitle]

/-- A line about a component is its mark and a rest. -/
theorem line_eq (o : Outcome) : ∃ rest, o.line = o.status.symbol ++ " " ++ rest := by
  refine ⟨o.component ++ ": " ++ o.status.label ++ " (" ++ Decimal.fixedText o.duration.toFloat ++
    "s)", ?_⟩
  simp [Outcome.line, statusLine, String.append_assoc]

theorem line_opensWith_marks {o : Outcome} (h : o.status ∈ Status.known) :
    opensWith marks o.line = true := by
  obtain ⟨rest, hline⟩ := line_eq o
  rw [hline]
  exact opensWith_append (List.mem_map_of_mem h) rest

theorem line_not_opensWith_headings {o : Outcome} (h : o.status ∈ Status.known) :
    opensWith headings o.line = false := by
  obtain ⟨rest, hline⟩ := line_eq o
  have hapart : ∀ s ∈ Status.known, Apart headings (s.symbol ++ " ") := by decide
  rw [hline]
  exact not_opensWith_append (hapart o.status h) rest

/-! ### What a line about a component shows -/

/-- The component that a line shows with a status.  The line begins with the symbol of the status, and
what comes before its last opening bracket ends in the label; the component stands between them. -/
def shownWith? (line : String) (s : Status) : Option String := do
  let rest ← (s.symbol ++ " ").toList.isPrefixOf? line.toList
  let component ← (": " ++ s.label ++ " (").toList.isSuffixOf? (rest.rdropWhile (· ≠ '('))
  some (String.ofList component)

/-- The standing that a line shows. -/
def standing? (line : String) : Option (Status × String) :=
  Status.known.findSome? fun s ↦ (shownWith? line s).map (s, ·)

/-- A number of seconds holds no bracket, so the bracket before it is the last one of a line. -/
theorem bracket_not_mem_fixedText (x : Float) : '(' ∉ (Decimal.fixedText x).toList := by
  rw [Decimal.fixedText]
  split
  · decide
  · split <;> decide
  · next b _ =>
    have hdigits := not_mem_digits (c := '(') rfl
    have hsign : '(' ∉ (if b.negative then "-" else "").toList := by split <;> decide
    simp [Decimal.fixedChars, Decimal.digitChars, String.toList_append, hdigits, hsign]

theorem rdropWhile_bracket (front : List Char) {rest : List Char} (h : '(' ∉ rest) :
    ((front ++ ['(']) ++ rest).rdropWhile (· ≠ '(') = front ++ ['('] := by
  have hrest : ∀ c ∈ rest.reverse, decide (c ≠ '(') = true := by
    intro c hc
    rw [decide_eq_true_iff]
    rintro rfl
    exact h (List.mem_reverse.1 hc)
  rw [List.rdropWhile, List.reverse_append, List.dropWhile_append_of_pos hrest, ← List.rdropWhile]
  exact List.rdropWhile_concat_neg _ _ _ (by decide)

/-- Every line shows its component with its status. -/
theorem shownWith?_line (o : Outcome) : shownWith? o.line o.status = some o.component := by
  -- the line is cut behind its mark and behind its last opening bracket
  have hline : (o.status.symbol ++ " ").toList ++
      ((o.component ++ ": " ++ o.status.label ++ " ").toList ++ ['('] ++
        (Decimal.fixedText o.duration.toFloat ++ "s)").toList) = o.line.toList := by
    simp [Outcome.line, statusLine, String.toList_append]
  have hseconds : '(' ∉ (Decimal.fixedText o.duration.toFloat ++ "s)").toList := by
    simp [String.toList_append, bracket_not_mem_fixedText]
  have hfront : o.component.toList ++ (": " ++ o.status.label ++ " (").toList =
      (o.component ++ ": " ++ o.status.label ++ " ").toList ++ ['('] := by
    simp [String.toList_append]
  rw [shownWith?, List.isPrefixOf?_eq_some_iff_append_eq.2 hline]
  simp only [Option.bind_eq_bind, Option.bind_some, rdropWhile_bracket _ hseconds,
    List.isSuffixOf?_eq_some_iff_append_eq.2 hfront, String.ofList_toList]

/-- A line begins with no other symbol than its own. -/
theorem shownWith?_line_of_ne {o : Outcome} {s : Status} (hs : s ∈ Status.known)
    (ho : o.status ∈ Status.known) (hne : s ≠ o.status) : shownWith? o.line s = none := by
  have hapart : ∀ s ∈ Status.known, ∀ s' ∈ Status.known, s ≠ s' →
      Apart [s.symbol ++ " "] (s'.symbol ++ " ") := by decide
  obtain ⟨rest, hline⟩ := line_eq o
  have hopens := not_opensWith_append (hapart s hs o.status ho hne) rest
  rw [← hline] at hopens
  cases hprefix : (s.symbol ++ " ").toList.isPrefixOf? o.line.toList with
  | none => rw [shownWith?, hprefix]; rfl
  | some front =>
    have hstarts : (s.symbol ++ " ").toList <+: o.line.toList :=
      ⟨front, List.isPrefixOf?_eq_some_iff_append_eq.1 hprefix⟩
    rw [opensWith, List.any_cons, List.isPrefixOf_iff_prefix.2 hstarts] at hopens
    cases hopens

theorem standing?_line {o : Outcome} (h : o.status ∈ Status.known) :
    standing? o.line = some (o.status, o.component) := by
  obtain ⟨before, after, hknown, hbefore⟩ := List.eq_append_cons_of_mem h
  rw [standing?, List.findSome?_eq_some_iff]
  refine ⟨before, o.status, after, hknown, by rw [shownWith?_line]; rfl, ?_⟩
  intro s hs
  have hmem : s ∈ Status.known := by
    rw [hknown]
    exact List.mem_append_left _ hs
  rw [shownWith?_line_of_ne hmem h (ne_of_mem_of_not_mem hs hbefore)]
  rfl

/-! ### The closing lines -/

/-- The closing line of a status. -/
def closingLine (r : Report) (s : Status) : String :=
  s.heading ++ ": " ++ ", ".intercalate (r.componentsWith s)

theorem closingLine_opensWith_headings {s : Status} (h : s ∈ closingStatuses) :
    opensWith headings (r.closingLine s) = true :=
  opensWith_append (List.mem_map_of_mem h) _

theorem closingLine_not_opensWith_marks {s : Status} (h : s ∈ closingStatuses) :
    opensWith marks (r.closingLine s) = false := by
  have hapart : ∀ s ∈ closingStatuses, Apart marks (s.heading ++ ": ") := by decide
  exact not_opensWith_append (hapart s h) _

/-- A status has a closing line if an outcome has it. -/
theorem closingLines_eq (s : Status) :
    r.closingLines s = if r.count s = 0 then [] else [r.closingLine s] := by
  rw [closingLines, closingLine, ← length_componentsWith]
  cases r.componentsWith s <;> rfl

theorem flatMap_closingLines (statuses : List Status) :
    statuses.flatMap r.closingLines = (statuses.filter (r.count · ≠ 0)).map r.closingLine := by
  induction statuses with
  | nil => rfl
  | cons s statuses ih =>
    rw [List.flatMap_cons, ih, closingLines_eq]
    by_cases h : r.count s = 0 <;> simp [h]

/-- The lines that begin with the mark of a status are those about the components, in order. -/
theorem IsKnown.filter_marks (known : r.IsKnown) :
    r.summaryLines.filter (opensWith marks) = r.outcomes.map Outcome.line := by
  have hblock (o : Outcome) (ho : o ∈ r.outcomes) :
      o.summaryLines.filter (opensWith marks) = [o.line] := by
    rw [Outcome.summaryLines, List.filter_cons_of_pos (line_opensWith_marks (known o ho)),
      filter_indented (by decide)]
  have hclosing : (closingStatuses.flatMap r.closingLines).filter (opensWith marks) = [] := by
    rw [flatMap_closingLines, List.filter_eq_nil_iff]
    intro line hline
    obtain ⟨s, hs, rfl⟩ := List.mem_map.1 hline
    simp [closingLine_not_opensWith_marks (List.mem_of_mem_filter hs)]
  rw [summaryLines, List.filter_append, List.filter_append, filter_title (by decide) (by decide), hclosing,
    List.filter_flatMap, List.flatMap_congr hblock, List.nil_append, List.append_nil,
    List.map_eq_flatMap]

/-- These lines show the standings of the components. -/
theorem IsKnown.map_standing? (known : r.IsKnown) :
    (r.summaryLines.filter (opensWith marks)).map standing? = r.standings.map some := by
  rw [known.filter_marks, standings, List.map_map, List.map_map]
  apply List.map_congr_left
  intro o ho
  exact standing?_line (known o ho)

/-- The lines that begin with a heading are the closing lines. -/
theorem IsKnown.filter_headings (known : r.IsKnown) :
    r.summaryLines.filter (opensWith headings) =
      (closingStatuses.filter (r.count · ≠ 0)).map r.closingLine := by
  have hblock (o : Outcome) (ho : o ∈ r.outcomes) :
      o.summaryLines.filter (opensWith headings) = [] := by
    rw [Outcome.summaryLines, List.filter_cons_of_neg, filter_indented (by decide)]
    simp [line_not_opensWith_headings (known o ho)]
  have hclosing (line : String)
      (h : line ∈ (closingStatuses.filter (r.count · ≠ 0)).map r.closingLine) :
      opensWith headings line = true := by
    obtain ⟨s, hs, rfl⟩ := List.mem_map.1 h
    exact closingLine_opensWith_headings (List.mem_of_mem_filter hs)
  rw [summaryLines, List.filter_append, List.filter_append, filter_title (by decide) (by decide),
    flatMap_closingLines, List.filter_eq_self.2 hclosing, List.filter_flatMap,
    List.flatMap_congr hblock]
  simp

/-! ## Agreement -/

/-- What can be read off the counts line, the document and the summary of a report. -/
structure Agree (r : Report) : Prop where
  /-- The counts line and the document show the same four counts. -/
  counts : ∀ s ∈ Status.known, said? r.countsLine s.label = some (toString (r.count s)) ∧
    member? r.document s.label = some (.int (r.count s))
  /-- The counts add up to the total. -/
  total : member? r.document "total" = some (.int r.outcomes.length)
  sum : r.count .passed + r.count .failed + r.count .errored + r.count .skipped = r.outcomes.length
  /-- The results are as many as the total says, and show the outcomes in order. -/
  results : ∃ results, member? r.document "results" = some (.list results) ∧
    results.length = r.outcomes.length ∧ List.Forall₂ Shows results r.outcomes
  /-- The components of a status are in order and as many as its count says. -/
  parts : ∀ s ∈ Status.known, (r.componentsWith s).length = r.count s ∧
    ((r.componentsWith s).map (s, ·)).Sublist r.standings
  /-- The components of the four statuses together are all components, each once. -/
  whole : (Status.known.flatMap fun s ↦ (r.componentsWith s).map (s, ·)).Perm r.standings
  /-- All verdicts say success if there are outcomes and as many passed. -/
  success : 0 < r.outcomes.length ∧ r.count .passed = r.outcomes.length →
    said? r.countsLine "verdict" = some "SUCCESS" ∧
      member? r.document "verdict" = some (.text "success") ∧ r.exitCode = 0
  /-- All verdicts say failure otherwise. -/
  failure : ¬(0 < r.outcomes.length ∧ r.count .passed = r.outcomes.length) →
    said? r.countsLine "verdict" = some "FAILURE" ∧
      member? r.document "verdict" = some (.text "failure") ∧ r.exitCode = 1
  /-- The summary has one line with a mark for each outcome, in order. -/
  marked : r.summaryLines.filter (opensWith marks) = r.outcomes.map Outcome.line
  /-- Each of these lines shows the symbol and the label of a status and, between them, the component:
  those of its outcome. -/
  shown : (r.summaryLines.filter (opensWith marks)).map standing? = r.standings.map some
  /-- The summary closes with one line for each status other than passed that an outcome has. -/
  closing : r.summaryLines.filter (opensWith headings) =
    (closingStatuses.filter (r.count · ≠ 0)).map r.closingLine
  closing_suffix : (closingStatuses.filter (r.count · ≠ 0)).map r.closingLine <:+ r.summaryLines
  /-- The closing lines name the components that did not pass, each once. -/
  named : (closingStatuses.flatMap fun s ↦ (r.componentsWith s).map (s, ·)).Perm
    (r.standings.filter (·.1 ≠ .passed))

/-- The verdict as the counts line, the document and the exit code show it. -/
theorem verdicts {v : Verdict} (h : r.verdict = v) :
    said? r.countsLine "verdict" = some v.banner ∧
      member? r.document "verdict" = some (.text v.label) ∧ r.exitCode = v.exitCode := by
  subst h
  exact ⟨said?_verdict, rfl, rfl⟩

/-- All renderings of a report whose outcomes have known statuses agree. -/
theorem renderings_agree (known : r.IsKnown) : r.Agree where
  counts s hs := ⟨said?_count hs, member?_count hs⟩
  total := rfl
  sum := known.sum_count
  results := by
    refine ⟨r.outcomes.map outcomeDocument, rfl, List.length_map _, ?_⟩
    rw [List.forall₂_map_left_iff, List.forall₂_same]
    exact fun o _ ↦ shows_outcomeDocument o
  parts s _ := ⟨r.length_componentsWith s, r.componentsWith_sublist s⟩
  whole := known.perm
  success h := verdicts (by rw [verdict_eq, if_pos h])
  failure h := verdicts (by rw [verdict_eq, if_neg h])
  marked := known.filter_marks
  shown := known.map_standing?
  closing := known.filter_headings
  closing_suffix := by
    rw [← flatMap_closingLines]
    exact List.suffix_append _ _
  named := known.perm_closing

/-- A report with an outcome of each known status. -/
def mixed : Report where
  outcomes := [
    { component := "api", status := .failed, diagnostics := some "refused\n", attempts := 2 },
    { component := "web", status := .passed, attempts := 1 },
    { component := "db", status := .skipped },
    { component := "web", status := .errored, diagnostics := some "", attempts := 1 }]

theorem renderings_agree_mixed : mixed.IsKnown ∧ mixed.Agree := by
  have known : mixed.IsKnown := by decide
  exact ⟨known, renderings_agree known⟩

end Report

end Testbed
