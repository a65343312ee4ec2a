import Mathlib.Algebra.Order.Field.Power
import Mathlib.Data.Rat.Cast.Order
import Mathlib.Tactic.Linarith
import Mathlib.Tactic.Positivity
import Testbed.Proofs.Clock.Durations
import Testbed.Proofs.Clock.Exact

/-!
# Nearest instants

A quotient of natural numbers is rounded to the instant that is nearest to it, and to the even one of
two that are equally near.  Infinity counts there as the power of two that comes after the finite
doubles, so that a number beyond them is rounded to infinity from half way on.  There is one nearest
instant only.
-/

namespace Testbed

namespace Clock

/-! ## What instants are worth -/

/-- What the instant at a place of the order is worth, as a multiple of `2 ^ -1074`. -/
def magnitude (t : Nat) : Nat :=
  if t / 2 ^ 52 = 0 then t else (2 ^ 52 + t % 2 ^ 52) * 2 ^ (t / 2 ^ 52 - 1)

theorem magnitude_eq {u s : Nat} (hs : s ≤ 2 ^ 53) (hfull : u = 0 ∨ 2 ^ 52 ≤ s) :
    magnitude (u * 2 ^ 52 + s) = s * 2 ^ u := by
  obtain hlt | hle := Nat.lt_or_ge s (2 ^ 52)
  · obtain rfl := hfull.resolve_right (by omega)
    rw [magnitude, if_pos (by omega)]
    simp
  · obtain hlt | rfl := Nat.lt_or_eq_of_le hs
    · have hdiv : (u * 2 ^ 52 + s) / 2 ^ 52 = u + 1 := by omega
      have hmod : 2 ^ 52 + (u * 2 ^ 52 + s) % 2 ^ 52 = s := by omega
      rw [magnitude, hdiv, hmod, if_neg (by omega)]
      rfl
    · have hdiv : (u * 2 ^ 52 + 2 ^ 53) / 2 ^ 52 = u + 2 := by omega
      have hmod : (u * 2 ^ 52 + 2 ^ 53) % 2 ^ 52 = 0 := by omega
      rw [magnitude, hdiv, hmod, if_neg (by omega)]
      have hpow : 2 ^ (u + 2 - 1) = 2 * 2 ^ u := by rw [Nat.add_succ_sub_one, pow_succ']
      rw [hpow]
      ring

theorem magnitude_binade_le {v u : Nat} (h : v ≤ u) : magnitude ((v + 1) * 2 ^ 52) ≤ 2 ^ 52 * 2 ^ u := by
  have hplace : (v + 1) * 2 ^ 52 = v * 2 ^ 52 + 2 ^ 52 := by ring
  rw [hplace, magnitude_eq (by norm_num) (.inr le_rfl)]
  exact Nat.mul_le_mul_left _ (Nat.pow_le_pow_right two_pos h)

/-- Every place is that of a significand and an exponent. -/
theorem exists_significand (t : Nat) :
    ∃ u s, s < 2 ^ 53 ∧ (u = 0 ∨ 2 ^ 52 ≤ s) ∧ t = u * 2 ^ 52 + s := by
  by_cases h : t / 2 ^ 52 = 0
  · exact ⟨0, t, by omega, .inl rfl, by omega⟩
  · exact ⟨t / 2 ^ 52 - 1, 2 ^ 52 + t % 2 ^ 52, by omega, .inr (by omega), by omega⟩

theorem magnitude_strictMono : StrictMono magnitude := by
  intro t t' h
  obtain ⟨u, s, hs, hfull, rfl⟩ := exists_significand t
  obtain ⟨u', s', hs', hfull', rfl⟩ := exists_significand t'
  rw [magnitude_eq hs.le hfull, magnitude_eq hs'.le hfull']
  obtain hlt | rfl : u < u' ∨ u = u' := by omega
  · calc
      s * 2 ^ u < 2 ^ 53 * 2 ^ u := Nat.mul_lt_mul_of_pos_right hs (by positivity)
      _ = 2 ^ 52 * 2 ^ (u + 1) := by ring
      _ ≤ s' * 2 ^ u' := by
        apply Nat.mul_le_mul (hfull'.resolve_left (by omega))
        exact Nat.pow_le_pow_right (by decide) hlt
  · exact Nat.mul_lt_mul_of_pos_right (by omega) (by positivity)

/-- What an instant is worth; infinity counts as the power of two that comes after the finite doubles. -/
def worth (x : Float) : ℚ :=
  ((scaled x).getD (2 ^ 2098) : ℤ) / 2 ^ 1074

theorem worth_eq {x : Float} (h : IsInstant x) : worth x = (magnitude (tick x) : ℚ) / 2 ^ 1074 := by
  rw [worth]
  congr 1
  obtain ⟨hscaled, hinfinity⟩ | ⟨hscaled, htick⟩ | ⟨m, e, hc, hscaled, htick⟩ := scaled_instant h
  · have htick := toNat_pack_unpack_instant h
    rw [hinfinity] at htick
    have hlast : tick x = 2046 * 2 ^ 52 + 2 ^ 52 := htick.symm
    rw [hscaled, hlast, magnitude_eq (by decide) (.inr le_rfl)]
    simp only [Option.getD_none, Int.cast_pow, Int.cast_ofNat, Nat.cast_pow, Nat.cast_ofNat,
      ← pow_add, Nat.reduceAdd]
  · rw [hscaled, htick]
    norm_num [magnitude]
  · have hleast := hc.least
    have hfull : (e + 1074).toNat = 0 ∨ 2 ^ 52 ≤ m := hc.full.symm.imp_left (by omega)
    have hplace : tick x = (e + 1074).toNat * 2 ^ 52 + m := by omega
    rw [hscaled, hplace, magnitude_eq hc.lt.le hfull]
    norm_num

/-! ## Rounding to natural numbers -/

/-- A natural number is nearest to a number, and the even one of two. -/
structure IsRounding (r : ℚ) (s : Nat) : Prop where
  near : |(s : ℚ) - r| ≤ 1 / 2
  even : |(s : ℚ) - r| = 1 / 2 → s % 2 = 0

namespace IsRounding

variable {r f : ℚ} {s n : Nat}

theorem below (hf : 0 ≤ f) (hless : 2 * f < 1) : IsRounding (n + f) n := by
  have habs : |(n : ℚ) - (n + f)| = f := by rw [sub_add_cancel_left, abs_neg, abs_of_nonneg hf]
  constructor
  · linarith
  · intro htie
    linarith

theorem above (hmore : 1 < 2 * f) (hf : f ≤ 1) : IsRounding (n + f) (n + 1) := by
  have habs : |((n + 1 : Nat) : ℚ) - (n + f)| = 1 - f := by
    push_cast
    rw [add_sub_add_left_eq_sub, abs_of_nonneg (by linarith)]
  constructor
  · linarith
  · intro htie
    linarith

/-- From half way the even neighbour is chosen. -/
theorem half (hf : 2 * f = 1) (hs : s = n ∨ s = n + 1) (heven : s % 2 = 0) : IsRounding (n + f) s := by
  have habs : |(s : ℚ) - (n + f)| = 1 / 2 := by
    obtain rfl : f = 1 / 2 := by linarith
    obtain rfl | rfl := hs
    · rw [sub_add_cancel_left, abs_neg]
      norm_num
    · push_cast
      rw [add_sub_add_left_eq_sub]
      norm_num
  exact ⟨habs.le, fun _ ↦ heven⟩

theorem le (h : IsRounding r s) (hr : r ≤ n) : s ≤ n := by
  have hnear := (abs_le.1 h.near).2
  have hlt : (s : ℚ) < (n + 1 : Nat) := by
    push_cast
    linarith
  exact Nat.lt_succ_iff.1 (Nat.cast_lt.1 hlt)

theorem ge (h : IsRounding r s) (hr : n ≤ r) : n ≤ s := by
  have hnear := (abs_le.1 h.near).1
  have hlt : (n : ℚ) < (s + 1 : Nat) := by
    push_cast
    linarith
  exact Nat.lt_succ_iff.1 (Nat.cast_lt.1 hlt)

/-- Any other natural number is farther away, or as far away from the even one. -/
theorem closest (h : IsRounding r s) (hn : n ≠ s) :
    |(s : ℚ) - r| < |(n : ℚ) - r| ∨ |(s : ℚ) - r| = |(n : ℚ) - r| ∧ s % 2 = 0 := by
  have hapart : (1 : ℚ) ≤ |(n : ℚ) - s| := by
    have hint : (1 : ℤ) ≤ |(n : ℤ) - s| := Int.one_le_abs (by omega)
    exact_mod_cast hint
  have htriangle : |(n : ℚ) - s| ≤ |(n : ℚ) - r| + |(s : ℚ) - r| := by
    rw [abs_sub_comm (s : ℚ) r]
    exact abs_sub_le _ _ _
  have hnear := h.near
  obtain hlt | heq := lt_or_eq_of_le (show |(s : ℚ) - r| ≤ |(n : ℚ) - r| by linarith)
  · exact .inl hlt
  · exact .inr ⟨heq, h.even (by linarith)⟩

theorem closest_le (h : IsRounding r s) (n : Nat) : |(s : ℚ) - r| ≤ |(n : ℚ) - r| := by
  obtain rfl | hn := eq_or_ne n s
  · exact le_rfl
  · exact (h.closest hn).elim (fun hlt ↦ hlt.le) fun heq ↦ heq.1.le

end IsRounding

/-! ## The nearest place -/

/-- The instant at a place is nearer to a number than the one at another place, or as near and even. -/
def IsCloser (Q : ℚ) (b t : Nat) : Prop :=
  |(magnitude b : ℚ) - Q| < |(magnitude t : ℚ) - Q| ∨
    |(magnitude b : ℚ) - Q| = |(magnitude t : ℚ) - Q| ∧ b % 2 = 0

variable {Q : ℚ} {b t u s : Nat}

/-- Below a number the later instants are closer. -/
theorem isCloser_of_lt (hb : (magnitude b : ℚ) ≤ Q) (ht : t < b) : IsCloser Q b t := by
  have hlt : (magnitude t : ℚ) < magnitude b := by exact_mod_cast magnitude_strictMono ht
  left
  rw [abs_of_nonpos (by linarith), abs_of_nonpos (by linarith)]
  linarith

/-- A significand that is rounded to 53 bits makes the closest instant. -/
theorem isCloser_of_isRounding (h : IsRounding (Q / 2 ^ u) s) (hlt : Q / 2 ^ u < 2 ^ 53)
    (hfull : u = 0 ∨ 2 ^ 52 ≤ Q / 2 ^ u) (ht : t ≠ u * 2 ^ 52 + s) : IsCloser Q (u * 2 ^ 52 + s) t := by
  have hs : s ≤ 2 ^ 53 := h.le (by exact_mod_cast hlt.le)
  have hfull' : u = 0 ∨ 2 ^ 52 ≤ s := hfull.imp_right fun hle ↦ h.ge (by exact_mod_cast hle)
  have hpos : (0 : ℚ) < 2 ^ u := by positivity
  have hscale (n : Nat) : |((n * 2 ^ u : Nat) : ℚ) - Q| = |(n : ℚ) - Q / 2 ^ u| * 2 ^ u := by
    rw [← abs_of_pos hpos, ← abs_mul, abs_of_pos hpos, sub_mul, div_mul_cancel₀ _ hpos.ne']
    push_cast
    rfl
  obtain ⟨u', s', hs', hfull'', rfl⟩ := exists_significand t
  have hb := magnitude_eq hs hfull'
  have ht' := magnitude_eq hs'.le hfull''
  rw [IsCloser, hb, ht', hscale]
  obtain hgt | hle := Nat.lt_or_ge u' u
  · -- the other instant is below the least significand
    have hbelow : s' * 2 ^ u' < 2 ^ 52 * 2 ^ u := calc
      s' * 2 ^ u' < 2 ^ 53 * 2 ^ u' := Nat.mul_lt_mul_of_pos_right hs' (by positivity)
      _ = 2 ^ 52 * 2 ^ (u' + 1) := by ring
      _ ≤ 2 ^ 52 * 2 ^ u := Nat.mul_le_mul_left _ (Nat.pow_le_pow_right (by decide) hgt)
    have hbelow' : ((s' * 2 ^ u' : Nat) : ℚ) < ((2 ^ 52 * 2 ^ u : Nat) : ℚ) := by exact_mod_cast hbelow
    have hleast : ((2 ^ 52 * 2 ^ u : Nat) : ℚ) ≤ Q := by
      have hfull := (le_div_iff₀ hpos).1 (hfull.resolve_left (by omega))
      exact_mod_cast hfull
    left
    calc
      |(s : ℚ) - Q / 2 ^ u| * 2 ^ u ≤ |((2 ^ 52 : Nat) : ℚ) - Q / 2 ^ u| * 2 ^ u :=
        mul_le_mul_of_nonneg_right (h.closest_le _) hpos.le
      _ = Q - ((2 ^ 52 * 2 ^ u : Nat) : ℚ) := by
        rw [← hscale, abs_of_nonpos (by linarith), neg_sub]
      _ < Q - ((s' * 2 ^ u' : Nat) : ℚ) := by linarith
      _ = |((s' * 2 ^ u' : Nat) : ℚ) - Q| := by
        rw [abs_of_nonpos (by linarith), neg_sub]
  · -- the other instant is a multiple of the same unit
    have hmul : s' * 2 ^ u' = s' * 2 ^ (u' - u) * 2 ^ u := by
      rw [Nat.mul_assoc, ← pow_add, Nat.sub_add_cancel hle]
    have hne : s' * 2 ^ (u' - u) ≠ s := by
      rintro rfl
      rw [← hmul] at hb
      exact ht (magnitude_strictMono.injective (ht'.trans hb.symm))
    rw [hmul, hscale, mul_lt_mul_iff_left₀ hpos, mul_left_inj' hpos.ne']
    have heven : (u * 2 ^ 52 + s) % 2 = s % 2 := by omega
    rw [heven]
    exact h.closest hne

/-- A significand that is rounded beyond the finite doubles makes infinity the closest instant. -/
theorem isCloser_of_overflow (h : IsRounding (Q / 2 ^ u) s) (hlt : Q / 2 ^ u < 2 ^ 53)
    (hfull : u = 0 ∨ 2 ^ 52 ≤ Q / 2 ^ u) (hover : 2047 * 2 ^ 52 < u * 2 ^ 52 + s)
    (ht : t < 2047 * 2 ^ 52) : IsCloser Q (2047 * 2 ^ 52) t := by
  have hs : s ≤ 2 ^ 53 := h.le (by exact_mod_cast hlt.le)
  refine isCloser_of_lt ?_ ht
  calc
    (magnitude (2047 * 2 ^ 52) : ℚ) ≤ ((2 ^ 52 * 2 ^ u : Nat) : ℚ) :=
      Nat.cast_le.2 (magnitude_binade_le (v := 2046) (by omega))
    _ ≤ Q := by
      rw [Nat.cast_mul, Nat.cast_pow, Nat.cast_pow, Nat.cast_two, ← le_div_iff₀ (by positivity)]
      exact hfull.resolve_left (by omega)

end Clock

namespace Decimal

open Clock

/-! ## Quotients -/

/-- A quotient is rounded by what is left over. -/
theorem roundDiv_isRounding (num : Nat) {den : Nat} (h : 0 < den) :
    IsRounding ((num : ℚ) / den) (roundDiv num den) := by
  have hpos : (0 : ℚ) < den := by exact_mod_cast h
  have hdiv : (num : ℚ) / den = (num / den : Nat) + (num % den : Nat) / den := by
    rw [eq_comm, ← mul_div_cancel_left₀ ((num / den : Nat) : ℚ) hpos.ne', ← add_div]
    congr 1
    exact_mod_cast Nat.div_add_mod num den
  have hnonneg : (0 : ℚ) ≤ (num % den : Nat) / den := by positivity
  have hless : ((num % den : Nat) : ℚ) / den < 1 := by
    rw [div_lt_one hpos]
    exact_mod_cast Nat.mod_lt num h
  have hhalf : 2 * (((num % den : Nat) : ℚ) / den) * den = 2 * (num % den : Nat) := by
    rw [mul_assoc, div_mul_cancel₀ _ hpos.ne']
  rw [hdiv, roundDiv]
  generalize ((num % den : Nat) : ℚ) / den = f at hnonneg hless hhalf
  split
  · next hlt =>
    apply IsRounding.below hnonneg
    rw [← mul_lt_mul_iff_left₀ hpos, hhalf, one_mul]
    exact_mod_cast hlt
  · split
    · next hgt =>
      refine IsRounding.above ?_ hless.le
      rw [← mul_lt_mul_iff_left₀ hpos, hhalf, one_mul]
      exact_mod_cast hgt
    · next hge hle =>
      have hf : 2 * f = 1 := by
        rw [← mul_left_inj' hpos.ne', hhalf, one_mul]
        exact_mod_cast (show 2 * (num % den) = den by omega)
      split
      · next heven => exact .half hf (.inl rfl) heven
      · next hodd => exact .half hf (.inr rfl) (by omega)

variable {num den : Nat}

theorem raise_div_raise {b : Nat} (hb : 0 < b) (e : Int) :
    (raise b e : ℚ) / raise b (-e) = (b : ℚ) ^ e := by
  have hne : (b : ℚ) ≠ 0 := by exact_mod_cast hb.ne'
  unfold raise
  obtain ⟨n, rfl | rfl⟩ := e.eq_nat_or_neg
  · simp
  · simp

/-- The leading binary digit of a quotient tells its magnitude. -/
theorem leadingBit_bounds (hnum : 0 < num) (hden : 0 < den) :
    (2 : ℚ) ^ leadingBit num den ≤ (num : ℚ) / den ∧ (num : ℚ) / den < 2 ^ (leadingBit num den + 1) := by
  have hpos : (0 : ℚ) < den := by exact_mod_cast hden
  have hnumLow : (2 : ℚ) ^ num.log2 ≤ num := by exact_mod_cast Nat.log2_self_le hnum.ne'
  have hnumHigh : (num : ℚ) < 2 ^ (num.log2 + 1) := by exact_mod_cast Nat.lt_log2_self
  have hdenLow : (2 : ℚ) ^ den.log2 ≤ den := by exact_mod_cast Nat.log2_self_le hden.ne'
  have hdenHigh : (den : ℚ) < 2 ^ (den.log2 + 1) := by exact_mod_cast Nat.lt_log2_self
  set k : Int := (num.log2 : Int) - den.log2 with hk
  have hlow : (2 : ℚ) ^ (k - 1) ≤ num / den := calc
    (2 : ℚ) ^ (k - 1) = 2 ^ num.log2 / 2 ^ (den.log2 + 1) := by
      rw [← zpow_natCast, ← zpow_natCast, ← zpow_sub₀ two_ne_zero]
      congr 1
      push_cast
      omega
    _ ≤ num / den := div_le_div₀ (Nat.cast_nonneg _) hnumLow hpos hdenHigh.le
  have hhigh : (num : ℚ) / den < 2 ^ (k + 1) := calc
    (num : ℚ) / den < 2 ^ (num.log2 + 1) / 2 ^ den.log2 := by
      rw [div_lt_div_iff₀ hpos (by positivity)]
      exact mul_lt_mul hnumHigh hdenLow (by positivity) (by positivity)
    _ = 2 ^ (k + 1) := by
      rw [← zpow_natCast, ← zpow_natCast, ← zpow_sub₀ two_ne_zero]
      congr 1
      push_cast
      omega
  have hraise : (0 : ℚ) < raise 2 (-k) := by exact_mod_cast raise_pos two_pos (-k)
  have htest : den * raise 2 k ≤ num * raise 2 (-k) ↔ (2 : ℚ) ^ k ≤ num / den := by
    have hpow := raise_div_raise two_pos k
    push_cast at hpow
    rw [← hpow, div_le_div_iff₀ hraise hpos, mul_comm (raise 2 k : ℚ)]
    exact_mod_cast Iff.rfl
  rw [leadingBit, ← hk]
  split
  · next h => exact ⟨htest.1 h, hhigh⟩
  · next h =>
    rw [sub_add_cancel]
    exact ⟨hlow, not_le.1 (mt htest.2 h)⟩

/-- The unit to which a quotient is rounded leaves 53 binary digits of it, or is the least one. -/
theorem unit_bounds (hnum : 0 < num) (hden : 0 < den) {unit : Int}
    (hunit : unit = max (leadingBit num den - 52) (-1074)) :
    (num : ℚ) / den / 2 ^ unit < 2 ^ 53 ∧ (unit = -1074 ∨ 2 ^ 52 ≤ (num : ℚ) / den / 2 ^ unit) := by
  obtain ⟨hlow, hhigh⟩ := leadingBit_bounds hnum hden
  have hpos : (0 : ℚ) < 2 ^ unit := by positivity
  constructor
  · rw [div_lt_iff₀ hpos, ← zpow_natCast, ← zpow_add₀ two_ne_zero]
    exact hhigh.trans_le (zpow_le_zpow_right₀ one_le_two (by push_cast; omega))
  · by_cases hleast : unit = -1074
    · exact .inl hleast
    · right
      rw [le_div_iff₀ hpos, ← zpow_natCast, ← zpow_add₀ two_ne_zero]
      have hexponent : ((52 : Nat) : Int) + unit = leadingBit num den := by
        push_cast
        omega
      rwa [hexponent]

/-- A quotient is rounded to a multiple of a unit. -/
theorem roundDiv_raise_isRounding (num : Nat) (hden : 0 < den) (unit : Int) :
    IsRounding ((num : ℚ) / den / 2 ^ unit)
      (roundDiv (num * raise 2 (-unit)) (den * raise 2 unit)) := by
  have hpow := raise_div_raise two_pos (-unit)
  rw [neg_neg, zpow_neg] at hpow
  have hquotient : (num : ℚ) / den / 2 ^ unit =
      ((num * raise 2 (-unit) : Nat) : ℚ) / (den * raise 2 unit : Nat) := by
    push_cast at hpow ⊢
    rw [mul_div_mul_comm, hpow, div_eq_mul_inv]
  rw [hquotient]
  exact roundDiv_isRounding _ (Nat.mul_pos hden (raise_pos two_pos unit))

/-- No place is closer to a quotient than the one to which it is rounded. -/
theorem nearestBits_isCloser (num : Nat) (hden : 0 < den) {t : Nat} (ht : t ≠ nearestBits num den)
    (hle : t ≤ 2047 * 2 ^ 52) : IsCloser ((num : ℚ) / den * 2 ^ 1074) (nearestBits num den) t := by
  obtain rfl | hnum := Nat.eq_zero_or_pos num
  · rw [nearestBits_zero] at ht ⊢
    have hlt := magnitude_strictMono (Nat.pos_of_ne_zero ht)
    left
    rw [Nat.cast_zero, zero_div, zero_mul, sub_zero, sub_zero, Nat.abs_cast, Nat.abs_cast]
    exact_mod_cast hlt
  · obtain ⟨unit, hunit⟩ : ∃ unit, unit = max (leadingBit num den - 52) (-1074) := ⟨_, rfl⟩
    obtain ⟨u, hu⟩ : ∃ u : Nat, (u : Int) = unit + 1074 := ⟨(unit + 1074).toNat, by omega⟩
    have hround := roundDiv_raise_isRounding num hden unit
    obtain ⟨hlt, hfull⟩ := unit_bounds hnum hden hunit
    have hbits : nearestBits num den = min (u * 2 ^ 52 +
        roundDiv (num * raise 2 (-unit)) (den * raise 2 unit)) (2047 * 2 ^ 52) := by
      have hplace : (unit + 1074).toNat = u := by omega
      rw [nearestBits, if_neg hnum.ne', ← hunit]
      dsimp only
      rw [hplace]
      rfl
    -- the unit in terms of the least one
    have hscaled : (num : ℚ) / den * 2 ^ 1074 / 2 ^ u = num / den / 2 ^ unit := by
      have hpow : (2 : ℚ) ^ u = 2 ^ unit * 2 ^ 1074 := by
        rw [← zpow_natCast, hu, zpow_add₀ two_ne_zero]
        rfl
      rw [hpow, mul_div_mul_right _ _ (by positivity)]
    rw [← hscaled] at hlt hfull hround
    have hfull' : u = 0 ∨ 2 ^ 52 ≤ (num : ℚ) / den * 2 ^ 1074 / 2 ^ u := hfull.imp_left (by omega)
    generalize roundDiv (num * raise 2 (-unit)) (den * raise 2 unit) = s at hround hbits
    obtain hover | hfits := Nat.lt_or_ge (2047 * 2 ^ 52) (u * 2 ^ 52 + s)
    · rw [Nat.min_eq_right hover.le] at hbits
      rw [hbits] at ht ⊢
      exact isCloser_of_overflow hround hlt hfull' hover (lt_of_le_of_ne hle ht)
    · rw [Nat.min_eq_left hfits] at hbits
      rw [hbits] at ht ⊢
      exact isCloser_of_isRounding hround hlt hfull' ht

end Decimal

/-! ## The nearest instant -/

namespace Clock

/-- No other instant is nearer to a number, and none is as near unless this one is even. -/
structure IsNearest (q : ℚ) (x : Float) : Prop where
  instant : IsInstant x
  closest : ∀ y, IsInstant y → y ≠ x →
    |worth x - q| < |worth y - q| ∨ |worth x - q| = |worth y - q| ∧ tick x % 2 = 0

theorem isNearest_of_isCloser {q : ℚ} {x : Float} (hx : IsInstant x)
    (h : ∀ t, t ≠ tick x → t ≤ 2047 * 2 ^ 52 → IsCloser (q * 2 ^ 1074) (tick x) t) : IsNearest q x := by
  refine ⟨hx, ?_⟩
  intro y hy hne
  have hpos : (0 : ℚ) < 2 ^ 1074 := by positivity
  have hscale (t : Nat) : |(magnitude t : ℚ) / 2 ^ 1074 - q| = |magnitude t - q * 2 ^ 1074| / 2 ^ 1074 := by
    rw [← abs_of_pos hpos, ← abs_div, abs_of_pos hpos, sub_div, mul_div_cancel_right₀ _ hpos.ne']
  have hcloser := h (tick y) (tick_injective.ne hne) hy
  rw [worth_eq hx, worth_eq hy, hscale, hscale, div_lt_div_iff_of_pos_right hpos, div_left_inj' hpos.ne']
  exact hcloser

/-- There is an instant at every place. -/
theorem tick_ofBits {b : Nat} (h : b ≤ 2047 * 2 ^ 52) : tick (Float.ofBits (UInt64.ofNat b)) = b := by
  have hbits : (UInt64.ofNat b).toBitVec.toNat = b := Nat.mod_eq_of_lt (by omega)
  exact (toNat_pack_unpack (hbits.trans_le h)).trans hbits

theorem worth_lt {x y : Float} (hx : IsInstant x) (hy : IsInstant y) (h : tick x < tick y) :
    worth x < worth y := by
  rw [worth_eq hx, worth_eq hy]
  apply div_lt_div_of_pos_right _ (by positivity)
  exact_mod_cast magnitude_strictMono h

/-- There is one nearest instant only: two that are as near are even, and there is one between them. -/
theorem IsNearest.unique {q : ℚ} {x y : Float} (hx : IsNearest q x) (hy : IsNearest q y) : x = y := by
  by_contra hne
  wlog hlt : tick x < tick y generalizing x y
  · have htick := tick_injective.ne hne
    exact this hy hx (Ne.symm hne) (by omega)
  obtain ⟨heq, hxeven, hyeven⟩ : |worth x - q| = |worth y - q| ∧ tick x % 2 = 0 ∧ tick y % 2 = 0 := by
    obtain h | ⟨heq, hxeven⟩ := hx.closest y hy.instant (Ne.symm hne)
    · obtain h' | ⟨heq, -⟩ := hy.closest x hx.instant hne
      · exact absurd h' h.not_gt
      · exact absurd heq h.ne'
    · obtain h' | ⟨-, hyeven⟩ := hy.closest x hx.instant hne
      · exact absurd heq h'.ne'
      · exact ⟨heq, hxeven, hyeven⟩
  have hyle : tick y ≤ 2047 * 2 ^ 52 := hy.instant
  obtain ⟨z, hz⟩ : ∃ z, tick z = tick x + 1 := ⟨_, tick_ofBits (by omega)⟩
  have hzinstant : IsInstant z := by
    change tick z ≤ 2047 * 2 ^ 52
    omega
  have hxz := worth_lt hx.instant hzinstant (by omega)
  have hzy := worth_lt hzinstant hy.instant (by omega)
  have hmiddle : worth x - q = -(worth y - q) := (abs_eq_abs.1 heq).resolve_left fun h ↦ by linarith
  have hcloser : |worth z - q| < |worth x - q| := by
    rw [abs_of_neg (show worth x - q < 0 by linarith), abs_lt]
    constructor <;> linarith
  have hzx : z ≠ x := by
    rintro rfl
    omega
  obtain h | ⟨h, -⟩ := hx.closest z hzinstant hzx
  · exact absurd hcloser h.not_gt
  · exact absurd h hcloser.ne'

end Clock

namespace Decimal

open Clock

theorem tick_nearest (num den : Nat) : tick (nearest num den) = nearestBits num den :=
  tick_ofBits (nearestBits_le num den)

/-- The double that is computed for a quotient is the nearest one. -/
theorem nearest_isNearest (num : Nat) {den : Nat} (hden : 0 < den) :
    IsNearest ((num : ℚ) / den) (nearest num den) := by
  apply isNearest_of_isCloser (isInstant_nearest num den)
  rw [tick_nearest]
  exact fun t ↦ nearestBits_isCloser num hden

/-- A number that is less than half of the least positive double is rounded to zero. -/
theorem isNearest_zero {q : ℚ} {x : Float} (hx : tick x = 0) (hq : 0 ≤ q) (hless : q * 2 ^ 1074 * 2 < 1) :
    IsNearest q x := by
  apply isNearest_of_isCloser (show tick x ≤ 2047 * 2 ^ 52 from hx.trans_le (Nat.zero_le _))
  intro t ht _
  rw [hx] at ht ⊢
  have hone : (1 : ℚ) ≤ magnitude t := by
    exact_mod_cast Nat.one_le_of_lt (magnitude_strictMono (Nat.pos_of_ne_zero ht))
  have hzero : (magnitude 0 : ℚ) = 0 := rfl
  have hnonneg : 0 ≤ q * 2 ^ 1074 := mul_nonneg hq (by positivity)
  generalize q * 2 ^ 1074 = Q at hless hnonneg
  left
  rw [hzero, zero_sub, abs_neg, abs_of_nonneg hnonneg, abs_of_nonneg (by linarith)]
  linarith

/-- A number to which infinity is not too large is rounded to infinity. -/
theorem isNearest_infinity {q : ℚ} {x : Float} (hx : tick x = 2047 * 2 ^ 52)
    (hq : (magnitude (2047 * 2 ^ 52) : ℚ) ≤ q * 2 ^ 1074) : IsNearest q x := by
  apply isNearest_of_isCloser (show tick x ≤ 2047 * 2 ^ 52 from hx.le)
  intro t ht hle
  rw [hx] at ht ⊢
  exact isCloser_of_lt hq (lt_of_le_of_ne hle ht)

/-- The number of decimal digits tells the magnitude of a number. -/
theorem toDigits_bounds {n : Nat} (hn : 0 < n) :
    10 ^ ((Nat.toDigits 10 n).length - 1) ≤ n ∧ n < 10 ^ (Nat.toDigits 10 n).length := by
  have hdigits : 0 < (Nat.toDigits 10 n).length := Nat.length_toDigits_pos
  constructor
  · by_contra hlt
    obtain hzero | hpos := Nat.eq_zero_or_pos ((Nat.toDigits 10 n).length - 1)
    · rw [hzero] at hlt
      omega
    · have hle := (Nat.length_toDigits_le_iff (by decide) hpos).2 (not_le.1 hlt)
      omega
  · exact (Nat.length_toDigits_le_iff (by decide) hdigits).1 le_rfl

/-- The place of the leading decimal digit tells the magnitude of a decimal number. -/
theorem lead_bounds {mantissa : Nat} (hm : 0 < mantissa) (exponent : Int) {lead : Int}
    (hlead : lead = (Nat.toDigits 10 mantissa).length + exponent) :
    (10 : ℚ) ^ (lead - 1) ≤ mantissa * 10 ^ exponent ∧ (mantissa : ℚ) * 10 ^ exponent < 10 ^ lead := by
  obtain ⟨hlow, hhigh⟩ := toDigits_bounds hm
  have hdigits : 0 < (Nat.toDigits 10 mantissa).length := Nat.length_toDigits_pos
  generalize (Nat.toDigits 10 mantissa).length = digits at *
  have hpos : (0 : ℚ) < 10 ^ exponent := by positivity
  have hten : (10 : ℚ) ≠ 0 := by norm_num
  constructor
  · have hsplit : lead - 1 = ((digits - 1 : Nat) : Int) + exponent := by omega
    rw [hsplit, zpow_add₀ hten, zpow_natCast]
    exact mul_le_mul_of_nonneg_right (by exact_mod_cast hlow) hpos.le
  · rw [hlead, zpow_add₀ hten, zpow_natCast]
    exact mul_lt_mul_of_pos_right (by exact_mod_cast hhigh) hpos

/-- The double that is computed for a decimal number is the nearest one. -/
theorem nearestScaled_isNearest (mantissa : Nat) (exponent : Int) :
    IsNearest (mantissa * 10 ^ exponent) (nearestScaled mantissa exponent) := by
  unfold nearestScaled
  dsimp only
  split
  · next h =>
    have hnonneg : (0 : ℚ) ≤ mantissa * 10 ^ exponent := by positivity
    apply isNearest_zero (tick_nearest 0 1) hnonneg
    obtain rfl | hm := Nat.eq_zero_or_pos mantissa
    · norm_num
    · have hlead := h.resolve_left hm.ne'
      obtain ⟨-, hhigh⟩ := lead_bounds hm exponent rfl
      have hsmall : (10 : ℚ) ^ (((Nat.toDigits 10 mantissa).length : Int) + exponent) ≤ 10 ^ (-401 : Int) :=
        zpow_le_zpow_right₀ (by norm_num) (by omega)
      have hpower : (2 : ℚ) ^ 1074 * 2 < 10 ^ 401 := by
        exact_mod_cast (show 2 ^ 1074 * 2 < 10 ^ 401 by decide +kernel)
      calc
        (mantissa : ℚ) * 10 ^ exponent * 2 ^ 1074 * 2 = mantissa * 10 ^ exponent * (2 ^ 1074 * 2) :=
          mul_assoc _ _ _
        _ < 10 ^ (-401 : Int) * 10 ^ 401 :=
          mul_lt_mul'' (hhigh.trans_le hsmall) hpower hnonneg (by positivity)
        _ = 1 := by
          rw [zpow_neg, ← zpow_natCast]
          exact inv_mul_cancel₀ (by positivity)
  · split
    · next h hlead =>
      have hm : 0 < mantissa := Nat.pos_of_ne_zero fun hzero ↦ h (.inl hzero)
      obtain ⟨hlow, -⟩ := lead_bounds hm exponent rfl
      apply isNearest_infinity (by rw [tick_nearest]; decide +kernel)
      have hpower : magnitude (2047 * 2 ^ 52) ≤ 10 ^ 400 * 2 ^ 1074 := by decide +kernel
      have hlarge : (10 : ℚ) ^ (400 : Int) ≤ mantissa * 10 ^ exponent :=
        (zpow_le_zpow_right₀ (by norm_num) (by omega)).trans hlow
      calc
        (magnitude (2047 * 2 ^ 52) : ℚ) ≤ ((10 ^ 400 * 2 ^ 1074 : Nat) : ℚ) := Nat.cast_le.2 hpower
        _ = 10 ^ (400 : Int) * 2 ^ 1074 := by
          rw [Nat.cast_mul, Nat.cast_pow, Nat.cast_pow]
          rfl
        _ ≤ mantissa * 10 ^ exponent * 2 ^ 1074 := mul_le_mul_of_nonneg_right hlarge (by positivity)
    · have hscaled : (mantissa : ℚ) * 10 ^ exponent =
          ((mantissa * raise 10 exponent : Nat) : ℚ) / (raise 10 (-exponent) : Nat) := by
        have hpow := raise_div_raise (b := 10) (by decide) exponent
        push_cast at hpow ⊢
        rw [← hpow, mul_div_assoc]
      rw [hscaled]
      exact nearest_isNearest _ (raise_pos (by decide) _)

end Decimal

end Testbed
