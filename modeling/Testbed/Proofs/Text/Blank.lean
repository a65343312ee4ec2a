import Mathlib.Data.List.TakeWhile
import Mathlib.Tactic.Common
import Testbed.Text.Blank
import Testbed.Text.Digit

/-!
# Blanks around a text

Trimming a text takes off blanks at its two ends and nothing else, so that nothing is left exactly of
the texts that are all blank.  A blank is no digit of any script.
-/

namespace Testbed.Text

variable {blank : Char → Bool} {cs before core after : List Char}

theorem trim_eq_nil_iff : trim cs blank = [] ↔ ∀ c ∈ cs, blank c = true := by
  rw [trim, List.reverse_eq_nil_iff, List.dropWhile_eq_nil_iff]
  constructor
  · intro h
    by_contra hsome
    -- the first character that is not blank stays
    have hne : cs.dropWhile blank ≠ [] := by rwa [ne_eq, List.dropWhile_eq_nil_iff]
    have hhead := List.head_dropWhile_not blank hne
    rw [h _ (List.mem_reverse.2 (List.head_mem hne))] at hhead
    cases hhead
  · intro h c hc
    rw [List.dropWhile_eq_nil_iff.2 h] at hc
    cases hc

theorem isBlankText_iff_trim {s : String} : isBlankText s = true ↔ trim s.toList = [] := by
  rw [isBlankText_iff, trim_eq_nil_iff]

/-- What is taken off a text is blank. -/
theorem exists_trim (cs : List Char) (blank : Char → Bool) :
    ∃ before after, (∀ c ∈ before, blank c = true) ∧ (∀ c ∈ after, blank c = true) ∧
      cs = before ++ (trim cs blank ++ after) := by
  refine ⟨cs.takeWhile blank, ((cs.dropWhile blank).reverse.takeWhile blank).reverse, ?_, ?_, ?_⟩
  · exact fun c hc ↦ List.mem_takeWhile_imp hc
  · exact fun c hc ↦ List.mem_takeWhile_imp (List.mem_reverse.1 hc)
  · rw [trim, ← List.reverse_append, List.takeWhile_append_dropWhile, List.reverse_reverse,
      List.takeWhile_append_dropWhile]

theorem dropWhile_append_of_stop (hbefore : ∀ c ∈ before, blank c = true)
    (hcore : ∀ c ∈ core.head?, blank c = false) : (before ++ core).dropWhile blank = core := by
  rw [List.dropWhile_append_of_pos hbefore]
  cases core with
  | nil => rfl
  | cons c core => exact List.dropWhile_cons_of_neg (by simpa using hcore c rfl)

/-- Blanks around a text that has none at its ends are taken off. -/
theorem trim_append (hbefore : ∀ c ∈ before, blank c = true) (hafter : ∀ c ∈ after, blank c = true)
    (hfirst : ∀ c ∈ core.head?, blank c = false) (hlast : ∀ c ∈ core.getLast?, blank c = false) :
    trim (before ++ (core ++ after)) blank = core := by
  have hreverse : ((core ++ after).reverse.dropWhile blank).reverse = core := by
    rw [List.reverse_append, dropWhile_append_of_stop, List.reverse_reverse]
    · simpa using hafter
    · rwa [List.head?_reverse]
  cases core with
  | nil =>
    apply trim_eq_nil_iff.2
    simpa [or_imp, forall_and] using ⟨hbefore, hafter⟩
  | cons c core =>
    have hstart : (before ++ (c :: core ++ after)).dropWhile blank = c :: core ++ after :=
      dropWhile_append_of_stop hbefore hfirst
    rw [trim, hstart, hreverse]

/-! ## Blanks and digits -/

/-- The code points of the blanks. -/
def blanks : List Nat :=
  [9, 10, 11, 12, 13, 28, 29, 30, 31, 32, 0x85, 0xA0, 0x1680, 0x2000, 0x2001, 0x2002, 0x2003, 0x2004,
   0x2005, 0x2006, 0x2007, 0x2008, 0x2009, 0x200A, 0x2028, 0x2029, 0x202F, 0x205F, 0x3000]

theorem toNat_mem_blanks {c : Char} (h : isBlank c = true) : c.toNat ∈ blanks := by
  simp only [isBlank, Bool.or_eq_true, Bool.and_eq_true, decide_eq_true_eq, beq_iff_eq] at h
  simp only [blanks, List.mem_cons, List.not_mem_nil, or_false]
  omega

theorem not_isDecimalDigit_of_isBlank {c : Char} (h : isBlank c = true) : isDecimalDigit c = false := by
  have hzeros : ∀ n ∈ blanks, ∀ z ∈ zeros, ¬(z ≤ n ∧ n < z + 10) := by decide
  rw [isDecimalDigit, digitValue?, Option.isSome_map, Option.isSome_eq_false_iff, Option.isNone_iff_eq_none,
    List.find?_eq_none]
  simpa using fun z hz ↦ hzeros c.toNat (toNat_mem_blanks h) z hz

end Testbed.Text
