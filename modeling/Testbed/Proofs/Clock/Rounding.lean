import Testbed.Proofs.Clock.Packing

/-!
# Rounding a magnitude

A magnitude `M * 2 ^ e` is rounded to the nearest double.  The result is never below a double that
the magnitude reaches, since cutting off bits does not fall below it and neither does the carry that
may follow.
-/

open Float.Model (Format UnpackedFloat)
open Float.Model.UnpackedFloat

namespace Testbed.Clock

theorem mantissa_shiftRight (em : ExtendedMantissa) (n : Nat) :
    (em >>> n).mantissa = em.mantissa / 2 ^ n := by
  change (n.repeat ExtendedMantissa.shiftRightOne em).mantissa = _
  induction n with
  | zero => simp [Nat.repeat]
  | succ n ih =>
    rw [Nat.repeat, ExtendedMantissa.shiftRightOne, ih, Nat.div_div_eq_div_mul, pow_succ]

theorem roundedMantissa_bounds (em : ExtendedMantissa) :
    em.mantissa ≤ em.roundedMantissa ∧ em.roundedMantissa ≤ em.mantissa + 1 := by
  obtain ⟨m, r, s⟩ := em
  cases r <;> cases s <;>
    simp [ExtendedMantissa.roundedMantissa, ExtendedMantissa.accuracy, Accuracy.roundToNearestEven]
  omega

theorem targetExponent_eq (m : Nat) (e : Int) :
    Format.binary64.targetExponent (Float.Model.totalExponent m e) =
      max (m.log2 + e - 52) (-1074) := by
  simp [Format.targetExponent, Float.Model.totalExponent, Format.mantissaBits, Format.minExponent]
  omega

/-- The first shift leaves 53 bits, or fewer at the least exponent. -/
theorem shifted_bounds {M : Nat} {e : Int} (hM : 0 < M) (hleast : -1074 ≤ e)
    (he : e ≤ max (M.log2 + e - 52) (-1074)) :
    let T := max ((M.log2 : Int) + e - 52) (-1074)
    let F := M / 2 ^ (T - e).toNat
    0 < F ∧ F < 2 ^ 53 ∧ (2 ^ 52 ≤ F ∨ T = -1074) := by
  intro T F
  have hself : 2 ^ M.log2 ≤ M := Nat.log2_self_le hM.ne'
  have hlt : M < 2 ^ (M.log2 + 1) := Nat.lt_log2_self
  have hupper : F < 2 ^ 53 := by
    rw [Nat.div_lt_iff_lt_mul (by positivity), ← pow_add]
    exact hlt.trans_le (Nat.pow_le_pow_right (by decide) (by omega))
  by_cases hT : T = -1074
  · have h0 : (T - e).toNat = 0 := by omega
    refine ⟨?_, hupper, Or.inr hT⟩
    simp only [F, h0, pow_zero, Nat.div_one]
    exact hM
  · have hfull : 2 ^ 52 ≤ F := by
      rw [Nat.le_div_iff_mul_le (by positivity), ← pow_add]
      exact (Nat.pow_le_pow_right (by decide) (by omega)).trans hself
    exact ⟨by omega, hupper, Or.inl hfull⟩

theorem log2_le_of_mul_le {m k M : Nat} (hm : 0 < m) (h : m * 2 ^ k ≤ M) : m.log2 + k ≤ M.log2 := by
  have hM : M ≠ 0 := by
    have : 0 < m * 2 ^ k := by positivity
    omega
  rw [Nat.le_log2 hM, pow_add]
  exact (Nat.mul_le_mul_right _ (Nat.log2_self_le hm.ne')).trans h

/-- A canonical number that the magnitude reaches is not above what the first shift leaves. -/
theorem reached_by_shifted {M m : Nat} {e f : Int} (hc : Canonical m f) (hle : e ≤ f)
    (hmul : m * 2 ^ (f - e).toNat ≤ M) :
    let T := max ((M.log2 : Int) + e - 52) (-1074)
    f < T ∨ f = T ∧ m ≤ M / 2 ^ (T - e).toNat := by
  intro T
  have hlog := log2_le_of_mul_le hc.pos hmul
  have h52 : 2 ^ 52 ≤ m → 52 ≤ m.log2 := fun h ↦ (Nat.le_log2 hc.pos.ne').2 h
  have hfull := hc.full
  rcases lt_or_eq_of_le (show f ≤ T by omega) with h | h
  · exact Or.inl h
  · refine Or.inr ⟨h, ?_⟩
    rw [Nat.le_div_iff_mul_le (by positivity), ← h]
    exact hmul

theorem shiftToTargetExponent_exact {m : Nat} {e T : Int}
    (hT : max ((m.log2 : Int) + e - 52) (-1074) = T) (he : e ≤ T) :
    shiftToTargetExponent Format.binary64 m e .exact =
      (ExtendedMantissa.ofMantissaAndAccuracy m .exact >>> (T - e).toNat, T) := by
  rw [shiftToTargetExponent, targetExponent_eq, hT]
  simp only [shiftToExponent, Prod.mk.injEq, true_and]
  omega

theorem ofMantissaAndAccuracy_shiftRight (m n : Nat) :
    (ExtendedMantissa.ofMantissaAndAccuracy m .exact >>> n).mantissa = m / 2 ^ n := by
  rw [mantissa_shiftRight]
  rfl

/-- Rounding is canonical and keeps above every canonical number that the magnitude reaches. -/
theorem round_positive {M : Nat} {e : Int} (hM : 0 < M) (hleast : -1074 ≤ e)
    (he : e ≤ max (M.log2 + e - 52) (-1074)) :
    ∃ m' e' h, UnpackedFloat.round Format.binary64 .positive M e = .finite .positive m' e' h ∧
      Canonical m' e' ∧ ∀ m f, Canonical m f → e ≤ f → m * 2 ^ (f - e).toNat ≤ M →
        (f + 1074) * 2 ^ 52 + (m : Int) ≤ (e' + 1074) * 2 ^ 52 + m' := by
  obtain ⟨hF, hFlt, hFfull⟩ := shifted_bounds hM hleast he
  have hreach (m : Nat) (f : Int) (hc : Canonical m f) (hle : e ≤ f)
      (hmul : m * 2 ^ (f - e).toNat ≤ M) := reached_by_shifted hc hle hmul
  set T := max ((M.log2 : Int) + e - 52) (-1074) with hT
  set F := M / 2 ^ (T - e).toNat with hFdef
  have hdec : decreaseExponent M e T = (M, e) := by
    have h0 : (e - T).toNat = 0 := by omega
    simp [decreaseExponent, h0]
  have hfirst := shiftToTargetExponent_exact hT.symm he
  set em := ExtendedMantissa.ofMantissaAndAccuracy M .exact >>> (T - e).toNat with hem
  obtain ⟨hlow, hhigh⟩ := roundedMantissa_bounds em
  rw [hem, ofMantissaAndAccuracy_shiftRight, ← hFdef, ← hem] at hlow hhigh
  rw [UnpackedFloat.round]
  simp only [targetExponent_eq, ← hT, hdec]
  rw [roundWithAccuracy]
  simp only [hfirst]
  -- the second shift moves a bit only if rounding has carried into the 54th
  by_cases hcarry : em.roundedMantissa = 2 ^ 53
  · have hlog : (2 ^ 53 : Nat).log2 = 53 := Nat.log2_two_pow
    have hsecond := shiftToTargetExponent_exact (m := 2 ^ 53) (e := T) (T := T + 1) (by omega)
      (by omega)
    have h1 : (T + 1 - T).toNat = 1 := by omega
    simp only [hcarry, hsecond, ofMantissaAndAccuracy_shiftRight, h1]
    refine ⟨2 ^ 52, T + 1, by decide, dif_neg (by decide),
      ⟨by decide, by decide, by omega, Or.inl le_rfl⟩, ?_⟩
    intro m f hc hle hmul
    have := hreach m f hc hle hmul
    have := hc.lt
    omega
  · have hpos : em.roundedMantissa ≠ 0 := by omega
    have hlog : em.roundedMantissa.log2 < 53 := (Nat.log2_lt hpos).2 (by omega)
    have hlog' : 2 ^ 52 ≤ F → 52 ≤ em.roundedMantissa.log2 := fun h ↦
      (Nat.le_log2 hpos).2 (h.trans hlow)
    have hsecond := shiftToTargetExponent_exact (m := em.roundedMantissa) (e := T) (T := T)
      (by omega) le_rfl
    have h0 : (T - T).toNat = 0 := by omega
    simp only [hsecond, ofMantissaAndAccuracy_shiftRight, h0, pow_zero, Nat.div_one]
    refine ⟨em.roundedMantissa, T, Nat.pos_of_ne_zero hpos, dif_neg hpos,
      ⟨by omega, by omega, by omega, by omega⟩, ?_⟩
    intro m f hc hle hmul
    have := hreach m f hc hle hmul
    have := hc.lt
    omega

end Testbed.Clock
