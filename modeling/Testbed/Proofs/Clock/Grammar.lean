import Testbed.Proofs.Clock.Nearest
import Testbed.Proofs.Text.Blank

/-!
# The grammar of durations

A text writes an amount of time if it consists of digits, with a point and further digits or without,
and of the suffix of a unit, which may be missing, with blanks before, between and after them.  There
is one amount at most that a text writes.  A text is a duration exactly if it writes an amount whose
seconds are more than zero as a double; any other text is refused.
-/

namespace Testbed

/-- The suffixes that name a unit; seconds need none. -/
def TimeUnit.suffixes : TimeUnit → List (List Char)
  | .milliseconds => [['m', 's']]
  | .seconds => [[], ['s']]
  | .minutes => [['m']]
  | .hours => [['h']]

theorem TimeUnit.ofSuffix?_eq_some {suffix : List Char} {unit : TimeUnit} :
    ofSuffix? suffix = some unit ↔ suffix ∈ unit.suffixes := by
  constructor
  · unfold ofSuffix?
    split <;> rintro ⟨⟩ <;> decide
  · cases unit <;> simp only [suffixes, List.mem_cons, List.not_mem_nil, or_false]
    case seconds => rintro (rfl | rfl) <;> rfl
    all_goals
      rintro rfl
      rfl

/-- A suffix consists of letters that are neither digits nor blank nor a point. -/
theorem TimeUnit.letter_of_mem_suffixes {suffix : List Char} {unit : TimeUnit} (h : suffix ∈ unit.suffixes)
    {c : Char} (hc : c ∈ suffix) :
    Text.isDecimalDigit c = false ∧ Text.isBlank c = false ∧ c ≠ '.' := by
  have hletter : c ∈ unit.suffixes.flatten := List.mem_flatten_of_mem h hc
  cases unit <;> simp [suffixes] at hletter
  case milliseconds => obtain rfl | rfl := hletter <;> decide
  all_goals
    subst hletter
    decide

namespace Amount

open Text

/-! ## Texts that write an amount -/

/-- The digits after the point, with the point, if there are any. -/
def pointed : List Char → List Char
  | [] => []
  | d :: ds => '.' :: d :: ds

def AreBlank (cs : List Char) : Prop :=
  ∀ c ∈ cs, isBlank c = true

def AreDigits (cs : List Char) : Prop :=
  ∀ c ∈ cs, isDecimalDigit c = true

/-- A text writes an amount: digits, perhaps with a point and further digits, and a suffix of the unit,
with blanks around both, and nothing else. -/
structure IsWritten (a : Amount) (text : List Char) : Prop where
  ne_nil : a.whole ≠ []
  whole : AreDigits a.whole
  fraction : AreDigits a.fraction
  layout : ∃ before between suffix after, AreBlank before ∧ AreBlank between ∧ AreBlank after ∧
    suffix ∈ a.unit.suffixes ∧
    text = before ++ (a.whole ++ (pointed a.fraction ++ (between ++ (suffix ++ after))))

/-! ## The number that the digits write -/

def number (a : Amount) : ℚ :=
  natOfDigits (a.whole ++ a.fraction) / 10 ^ a.fraction.length

/-- The double as which the digits are read. -/
def reading (a : Amount) : Float :=
  Decimal.nearestScaled (natOfDigits (a.whole ++ a.fraction)) (-a.fraction.length)

/-- The digits are read as the nearest double. -/
theorem isNearest_iff {a : Amount} {x : Float} : Clock.IsNearest a.number x ↔ x = a.reading := by
  have hreading : Clock.IsNearest a.number a.reading := by
    have hnearest := Decimal.nearestScaled_isNearest (natOfDigits (a.whole ++ a.fraction)) (-a.fraction.length)
    rwa [zpow_neg, zpow_natCast, ← div_eq_mul_inv] at hnearest
  constructor
  · exact fun h ↦ h.unique hreading
  · rintro rfl
    exact hreading

theorem exists_isNearest {text : List Char} {P : Amount → Float → Prop} :
    (∃ a : Amount, ∃ x, a.IsWritten text ∧ Clock.IsNearest a.number x ∧ P a x) ↔
      ∃ a : Amount, a.IsWritten text ∧ P a a.reading := by
  simp only [isNearest_iff]
  constructor
  · rintro ⟨a, x, h, rfl, hP⟩
    exact ⟨a, h, hP⟩
  · rintro ⟨a, h, hP⟩
    exact ⟨a, _, h, rfl, hP⟩

/-! ## What the parts of a text begin and end with -/

variable {ds rest between suffix : List Char} {unit : TimeUnit}

theorem not_isBlank_of_isDecimalDigit {c : Char} (h : isDecimalDigit c = true) : isBlank c = false := by
  by_contra hblank
  rw [not_isDecimalDigit_of_isBlank (by simpa using hblank)] at h
  cases h

/-- What may follow a number in a duration is taken for no part of it. -/
theorem stops (hbetween : AreBlank between) (hsuffix : suffix ∈ unit.suffixes) :
    ∀ c ∈ (between ++ suffix).head?, isDecimalDigit c = false ∧ c ≠ '.' := by
  intro c hc
  obtain hc | hc := List.mem_append.1 (List.mem_of_mem_head? hc)
  · have hblank := hbetween c hc
    refine ⟨not_isDecimalDigit_of_isBlank hblank, ?_⟩
    rintro rfl
    cases hblank
  · obtain ⟨hdigit, -, hpoint⟩ := TimeUnit.letter_of_mem_suffixes hsuffix hc
    exact ⟨hdigit, hpoint⟩

theorem stops_pointed (hrest : ∀ c ∈ rest.head?, isDecimalDigit c = false ∧ c ≠ '.')
    {fraction : List Char} : ∀ c ∈ (pointed fraction ++ rest).head?, isDecimalDigit c = false := by
  cases fraction with
  | nil => exact fun c hc ↦ (hrest c hc).1
  | cons d ds =>
    rintro _ ⟨⟩
    decide

/-- A number ends with a digit. -/
theorem isDecimalDigit_getLast {whole fraction : List Char} (hwhole : AreDigits whole)
    (hfraction : AreDigits fraction) :
    ∀ c ∈ (whole ++ pointed fraction).getLast?, isDecimalDigit c = true := by
  intro c hc
  cases fraction with
  | nil =>
    rw [pointed, List.append_nil] at hc
    exact hwhole c (List.mem_of_getLast? hc)
  | cons d ds =>
    rw [pointed, List.append_cons, List.getLast?_append_of_ne_nil _ (List.cons_ne_nil d ds)] at hc
    exact hfraction c (List.mem_of_getLast? hc)

/-! ## Reading -/

theorem digits_append (hds : AreDigits ds) (hrest : ∀ c ∈ rest.head?, isDecimalDigit c = false) :
    digits (ds ++ rest) = ds ∧ afterDigits (ds ++ rest) = rest := by
  refine ⟨?_, dropWhile_append_of_stop hds hrest⟩
  rw [digits, List.takeWhile_append_of_pos hds]
  cases rest with
  | nil => simp
  | cons c rest => rw [List.takeWhile_cons_of_neg (by simpa using hrest c rfl), List.append_nil]

theorem digits_append_afterDigits (cs : List Char) : digits cs ++ afterDigits cs = cs :=
  List.takeWhile_append_dropWhile

theorem areDigits_digits (cs : List Char) : AreDigits (digits cs) :=
  fun _ hc ↦ List.mem_takeWhile_imp hc

theorem tail?_pointed {fraction : List Char} (hfraction : AreDigits fraction)
    (hrest : ∀ c ∈ rest.head?, isDecimalDigit c = false ∧ c ≠ '.') :
    tail? (pointed fraction ++ rest) = some (fraction, rest) := by
  cases fraction with
  | nil =>
    rw [pointed, List.nil_append]
    unfold tail?
    split
    · exact absurd rfl (hrest '.' rfl).2
    · rfl
  | cons d ds =>
    obtain ⟨hdigits, hafter⟩ := digits_append hfraction fun c hc ↦ (hrest c hc).1
    rw [pointed, List.cons_append, tail?, hdigits, hafter]
    rfl

theorem eq_of_tail? {cs fraction : List Char} (h : tail? cs = some (fraction, rest)) :
    AreDigits fraction ∧ cs = pointed fraction ++ rest := by
  unfold tail? at h
  split at h
  · next cs =>
    split at h
    · cases h
    · next hne =>
      cases h
      refine ⟨areDigits_digits cs, ?_⟩
      obtain ⟨d, ds, hds⟩ := List.exists_cons_of_ne_nil (mt List.isEmpty_iff.2 hne)
      have hcs := digits_append_afterDigits cs
      rw [hds] at hcs ⊢
      rw [pointed, List.cons_append, hcs]
  · cases h
    exact ⟨List.forall_mem_nil _, rfl⟩

/-- The blanks around the parts of a duration are taken off, and those before a missing suffix are
among them. -/
theorem trim_of_isWritten {a : Amount} {text : List Char} (h : a.IsWritten text) :
    ∃ between suffix, AreBlank between ∧ suffix ∈ a.unit.suffixes ∧
      trim text = a.whole ++ (pointed a.fraction ++ (between ++ suffix)) := by
  obtain ⟨before, between, suffix, after, hbefore, hbetween, hafter, hsuffix, rfl⟩ := h.layout
  obtain ⟨d, ds, hds⟩ := List.exists_cons_of_ne_nil h.ne_nil
  have hfirst (rest : List Char) : ∀ c ∈ (a.whole ++ rest).head?, isBlank c = false := by
    rw [hds]
    rintro _ ⟨⟩
    exact not_isBlank_of_isDecimalDigit (h.whole d (by simp [hds]))
  cases suffix with
  | nil =>
    refine ⟨[], [], List.forall_mem_nil _, hsuffix, ?_⟩
    have hend : AreBlank (between ++ after) := by
      intro c hc
      exact (List.mem_append.1 hc).elim (hbetween c) (hafter c)
    have htrim := trim_append hbefore hend (hfirst (pointed a.fraction)) fun c hc ↦
      not_isBlank_of_isDecimalDigit (isDecimalDigit_getLast h.whole h.fraction c hc)
    simpa using htrim
  | cons c suffix =>
    refine ⟨between, c :: suffix, hbetween, hsuffix, ?_⟩
    have htrim := trim_append hbefore hafter
      (hfirst (pointed a.fraction ++ (between ++ c :: suffix))) fun d hd ↦ by
        rw [← List.append_assoc, ← List.append_assoc,
          List.getLast?_append_of_ne_nil _ (List.cons_ne_nil c suffix)] at hd
        exact (TimeUnit.letter_of_mem_suffixes hsuffix (List.mem_of_getLast? hd)).2.1
    simpa using htrim

theorem parse?_eq_some {a : Amount} {s : String} :
    parse? s = some a ↔ digits (trim s.toList) ≠ [] ∧
      ∃ suffix, tail? (afterDigits (trim s.toList)) = some (a.fraction, suffix) ∧
        suffix.dropWhile isBlank ∈ a.unit.suffixes ∧ digits (trim s.toList) = a.whole := by
  simp only [← TimeUnit.ofSuffix?_eq_some]
  obtain ⟨whole, fraction, unit⟩ := a
  simp only [parse?, guard, Option.bind_eq_bind, Option.bind_eq_some_iff]
  cases digits (trim s.toList) with
  | nil => simp
  | cons d ds => simp

theorem parse?_of_isWritten {a : Amount} {s : String} (h : a.IsWritten s.toList) : parse? s = some a := by
  obtain ⟨between, suffix, hbetween, hsuffix, htrim⟩ := trim_of_isWritten h
  have hstop := stops hbetween hsuffix
  obtain ⟨hdigits, hafter⟩ := digits_append h.whole (stops_pointed hstop)
  have hrest : (between ++ suffix).dropWhile isBlank = suffix :=
    dropWhile_append_of_stop hbetween fun c hc ↦
      (TimeUnit.letter_of_mem_suffixes hsuffix (List.mem_of_mem_head? hc)).2.1
  rw [parse?_eq_some, htrim, hdigits, hafter]
  exact ⟨h.ne_nil, _, tail?_pointed h.fraction hstop, by rwa [hrest], rfl⟩

theorem isWritten_of_parse? {a : Amount} {s : String} (h : parse? s = some a) : a.IsWritten s.toList := by
  obtain ⟨hne, suffix, htail, hsuffix, hwhole⟩ := parse?_eq_some.1 h
  obtain ⟨hfraction, hpointed⟩ := eq_of_tail? htail
  obtain ⟨before, after, hbefore, hafter, hs⟩ := exists_trim s.toList isBlank
  refine ⟨hwhole ▸ hne, hwhole ▸ areDigits_digits _, hfraction, before, suffix.takeWhile isBlank,
    suffix.dropWhile isBlank, after, hbefore, fun _ hc ↦ List.mem_takeWhile_imp hc, hafter, hsuffix, ?_⟩
  calc
    _ = before ++ (trim s.toList ++ after) := hs
    _ = before ++ (a.whole ++ (pointed a.fraction ++ suffix) ++ after) := by
      rw [← hwhole, ← hpointed, digits_append_afterDigits]
    _ = _ := by
      conv_lhs => rw [← List.takeWhile_append_dropWhile (p := isBlank) (l := suffix)]
      simp only [List.append_assoc]

/-- An amount is read from exactly the texts that write it. -/
theorem parse?_eq_some_iff {a : Amount} {s : String} : parse? s = some a ↔ a.IsWritten s.toList :=
  ⟨isWritten_of_parse?, parse?_of_isWritten⟩

end Amount

namespace Duration

open Clock

/-- A text is a duration exactly if it writes an amount whose seconds, the double nearest to the digits
times the seconds in the unit, are more than zero; it is then worth that product, and no text writes
two amounts.  Of any other text it is said that it is malformed, or that it is not positive. -/
theorem parse_text (s : String) :
    (∀ x, parse (.text s) = .ok x ↔
      ∃ a : Amount, ∃ amount, a.IsWritten s.toList ∧ IsNearest a.number amount ∧
        0 < amount * a.unit.factor ∧ x = amount * a.unit.factor) ∧
    (∀ a a' : Amount, a.IsWritten s.toList → a'.IsWritten s.toList → a = a') ∧
    ∀ e, parse (.text s) = .error e ↔
      (e = .malformed s ∧ ∀ a : Amount, ¬a.IsWritten s.toList) ∨
      e = .notPositive (Given.text s).shown ∧
        ∃ a : Amount, ∃ amount, a.IsWritten s.toList ∧ IsNearest a.number amount ∧
          ¬0 < amount * a.unit.factor := by
  simp only [Amount.exists_isNearest]
  refine ⟨?accepted, ?unique, ?refused⟩
  case accepted =>
    intro x
    simp only [parse_text_eq_ok, Writes, Amount.parse?_eq_some_iff]
    rfl
  case unique =>
    intro a a' h h'
    rw [← Amount.parse?_eq_some_iff] at h h'
    exact Option.some_inj.1 (h.symm.trans h')
  case refused =>
    intro e
    simp only [← Amount.parse?_eq_some_iff]
    cases hparse : Amount.parse? s with
    | none => simp [parse, Given.seconds, hparse, bind, Except.bind, eq_comm]
    | some a =>
      have hpositive : 0 < a.reading * a.unit.factor ↔ ¬a.seconds ≤ 0 :=
        lt_iff_not_le isInstant_zero a.isInstant_seconds.not_isNaN
      by_cases hle : a.seconds ≤ 0
      · simp [parse, Given.seconds, hparse, bind, Except.bind, hpositive, hle, eq_comm]
      · simp [parse, Given.seconds, hparse, bind, Except.bind, hpositive, hle]

/-- Blanks of any script may stand between the digits and the unit. -/
example : ((parse (.text " 1.5\u00a0h")).map Float.toBits).toOption = some (5400.0 : Float).toBits := by
  decide +kernel

end Duration

end Testbed
