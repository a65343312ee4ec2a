import Mathlib.Data.List.Infix
import Mathlib.Tactic.Common
import Testbed.Text.Search

/-!
# Segments of a text

Cutting a text at the occurrences of a pattern leaves segments that do not hold the pattern, and
joining them with the pattern gives the text back.  A pattern that does not overlap itself leaves no
choice where to cut.  So a replacement can be read off the text in which it was put, as soon as there
was one occurrence.
-/

namespace Testbed.Text

variable {pattern cs : List Char}

/-- A text as segments that do not hold the pattern, joined by it. -/
structure IsSplit (pattern : List Char) (segments : List (List Char)) (cs : List Char) : Prop where
  joined : pattern.intercalate segments = cs
  ne_nil : segments ≠ []
  clean : ∀ s ∈ segments, ¬pattern <:+: s

/-! ## Cutting -/

theorem segmentsFrom_ne_nil (pattern segment cs : List Char) : segmentsFrom pattern segment cs ≠ [] := by
  fun_induction segmentsFrom pattern segment cs with
  | case1 | case2 => exact List.cons_ne_nil _ _
  | case3 _ _ _ _ ih => exact ih

theorem intercalate_segmentsFrom (pattern segment cs : List Char) :
    pattern.intercalate (segmentsFrom pattern segment cs) = segment.reverse ++ cs := by
  fun_induction segmentsFrom pattern segment cs with
  | case1 => simp
  | case2 segment c rest h ih =>
    obtain ⟨hne, hprefix⟩ := h
    obtain ⟨tail, htail⟩ := List.isPrefixOf_iff_prefix.1 hprefix
    have hdrop : rest.drop (pattern.length - 1) = tail := by
      obtain ⟨d, pattern, rfl⟩ := List.exists_cons_of_ne_nil hne
      rw [List.cons_append, List.cons.injEq] at htail
      rw [← htail.2, List.length_cons, Nat.add_sub_cancel, List.drop_left]
    rw [List.intercalate_cons_of_ne_nil (segmentsFrom_ne_nil _ _ _), ih, hdrop, ← htail]
    simp
  | case3 segment c rest _ ih => simp [ih]

/-- No occurrence of a pattern begins within a segment that was passed. -/
def Passed (pattern segment cs : List Char) : Prop :=
  ∀ i < segment.length, ¬pattern <+: (segment ++ cs).drop i

theorem Passed.not_infix {rest : List Char} (h : Passed pattern cs rest) (hne : pattern ≠ []) : ¬pattern <:+: cs := by
  rintro ⟨before, after, rfl⟩
  apply h before.length
  · have := List.length_pos_of_ne_nil hne
    simp
    omega
  · simp

theorem Passed.concat {segment rest : List Char} {c : Char} (h : Passed pattern segment (c :: rest))
    (hstop : ¬pattern <+: c :: rest) : Passed pattern (segment ++ [c]) rest := by
  intro i hi
  rw [List.append_assoc, List.singleton_append]
  rw [List.length_append, List.length_singleton, Nat.lt_succ_iff_lt_or_eq] at hi
  obtain hi | rfl := hi
  · exact h i hi
  · rwa [List.drop_left]

theorem clean_segmentsFrom (hne : pattern ≠ []) {segment cs : List Char}
    (hpassed : Passed pattern segment.reverse cs) :
    ∀ s ∈ segmentsFrom pattern segment cs, ¬pattern <:+: s := by
  fun_induction segmentsFrom pattern segment cs with
  | case1 segment => simpa using hpassed.not_infix hne
  | case2 segment c rest _ ih =>
    rw [List.forall_mem_cons]
    exact ⟨hpassed.not_infix hne, ih fun i hi ↦ absurd hi (Nat.not_lt_zero i)⟩
  | case3 segment c rest h ih =>
    apply ih
    rw [List.reverse_cons]
    apply hpassed.concat
    rw [← List.isPrefixOf_iff_prefix]
    exact fun hprefix ↦ h ⟨hne, hprefix⟩

theorem isSplit_segments (hne : pattern ≠ []) (cs : List Char) :
    IsSplit pattern (segments pattern cs) cs where
  joined := intercalate_segmentsFrom pattern [] cs
  ne_nil := segmentsFrom_ne_nil pattern [] cs
  clean := clean_segmentsFrom hne fun i hi ↦ absurd hi (Nat.not_lt_zero i)

/-! ## Patterns that do not overlap themselves -/

/-- No part of the pattern that is not the whole stands both at its beginning and at its end. -/
def Unbordered (pattern : List Char) : Prop :=
  ∀ overlap, overlap <+: pattern → overlap <:+ pattern → overlap = [] ∨ overlap = pattern

/-- A pattern whose first character does not come again does not overlap itself. -/
theorem unbordered_cons {c : Char} {rest : List Char} (h : c ∉ rest) : Unbordered (c :: rest) := by
  intro overlap hprefix hsuffix
  obtain rfl | ⟨tail, rfl, -⟩ := List.prefix_cons_iff.1 hprefix
  · exact .inl rfl
  · obtain heq | hsuffix := List.suffix_cons_iff.1 hsuffix
    · exact .inr heq
    · exact absurd (hsuffix.subset List.mem_cons_self) h

/-- Of two texts that are followed by an occurrence of the pattern at different places, the longer one
holds the pattern. -/
theorem infix_of_length_lt (hpattern : Unbordered pattern) {s s' rest rest' : List Char}
    (h : s ++ (pattern ++ rest) = s' ++ (pattern ++ rest')) (hlt : s.length < s'.length) :
    pattern <:+: s' := by
  obtain ⟨t, rfl, hrest⟩ | ⟨t, rfl, -⟩ := List.append_eq_append_iff.1 h
  · obtain ⟨u, ht, -⟩ | ⟨u, hu, hrest⟩ := List.append_eq_append_iff.1 hrest
    · exact ⟨s, u, by rw [ht, List.append_assoc]⟩
    · -- the rest of the earlier occurrence is the beginning of the later one
      have hprefix : u <+: pattern := by
        have hlength := congrArg List.length hu
        rw [List.length_append] at hlength
        exact List.prefix_of_prefix_length_le (by rw [hrest]; exact List.prefix_append u rest)
          (List.prefix_append pattern rest') (by omega)
      obtain rfl | heq := hpattern u hprefix ⟨t, hu.symm⟩
      · exact ⟨s, [], by simpa using hu⟩
      · have hlength := congrArg List.length hu
        rw [heq, List.length_append] at hlength
        rw [List.length_append] at hlt
        omega
  · rw [List.length_append] at hlt
    omega

theorem IsSplit.infix {s r : List Char} {rest : List (List Char)}
    (h : IsSplit pattern (s :: r :: rest) cs) : pattern <:+: cs := by
  rw [← h.joined, List.intercalate_cons_cons]
  exact ⟨s, _, rfl⟩

theorem IsSplit.not_infix {s : List Char} (h : IsSplit pattern [s] cs) : ¬pattern <:+: cs := by
  rw [← h.joined, List.intercalate_singleton]
  exact h.clean s (List.mem_singleton_self s)

/-- There is only one way to cut a text at a pattern that does not overlap itself. -/
theorem IsSplit.unique (hpattern : Unbordered pattern) {ss ss' : List (List Char)}
    (h : IsSplit pattern ss cs) (h' : IsSplit pattern ss' cs) : ss = ss' := by
  induction ss generalizing ss' cs with
  | nil => exact absurd rfl h.ne_nil
  | cons s rest ih =>
    obtain ⟨s', rest', rfl⟩ := List.exists_cons_of_ne_nil h'.ne_nil
    have hclean := List.forall_mem_cons.1 h.clean
    have hclean' := List.forall_mem_cons.1 h'.clean
    have hjoined := h.joined.trans h'.joined.symm
    cases rest with
    | nil =>
      cases rest' with
      | nil => simpa using hjoined
      | cons => exact absurd h'.infix h.not_infix
    | cons r rest =>
      cases rest' with
      | nil => exact absurd h.infix h'.not_infix
      | cons r' rest' =>
        simp only [List.intercalate_cons_cons, List.append_assoc] at hjoined
        have hlength : s.length = s'.length :=
          Nat.le_antisymm
            (Nat.not_lt.1 fun hlt ↦ hclean.1 (infix_of_length_lt hpattern hjoined.symm hlt))
            (Nat.not_lt.1 fun hlt ↦ hclean'.1 (infix_of_length_lt hpattern hjoined hlt))
        obtain ⟨rfl, htail⟩ := List.append_inj hjoined hlength
        rw [ih ⟨List.append_cancel_left htail, List.cons_ne_nil r rest, hclean.2⟩
          ⟨rfl, List.cons_ne_nil r' rest', hclean'.2⟩]

/-! ## Replacing -/

theorem length_intercalate (separator s : List Char) (ss : List (List Char)) :
    (separator.intercalate (s :: ss)).length =
      s.length + ss.flatten.length + ss.length * separator.length := by
  induction ss generalizing s with
  | nil => simp
  | cons r ss ih =>
    rw [List.intercalate_cons_cons, List.length_append, List.length_append, ih, List.flatten_cons,
      List.length_append, List.length_cons, Nat.succ_mul]
    omega

/-- A separator can be read off what it joins. -/
theorem intercalate_injective (s r : List Char) (ss : List (List Char)) :
    Function.Injective fun separator : List Char ↦ separator.intercalate (s :: r :: ss) := by
  intro separator separator' h
  have hlength := congrArg List.length h
  simp only [length_intercalate, List.length_cons, Nat.add_left_cancel_iff] at hlength
  have hseparator : separator.length = separator'.length :=
    Nat.eq_of_mul_eq_mul_left (Nat.succ_pos _) hlength
  simp only [List.intercalate_cons_cons, List.append_assoc] at h
  exact (List.append_inj (List.append_cancel_left h) hseparator).1

/-- A replacement can be read off the text in which it was put. -/
theorem substitute_injective (hne : pattern ≠ []) (h : pattern <:+: cs) :
    Function.Injective fun replacement ↦ substitute pattern replacement cs := by
  have hsplit := isSplit_segments hne cs
  unfold substitute
  generalize segments pattern cs = ss at hsplit
  match ss with
  | [] => exact absurd rfl hsplit.ne_nil
  | [s] => exact absurd h hsplit.not_infix
  | s :: r :: ss => exact intercalate_injective s r ss

end Testbed.Text
