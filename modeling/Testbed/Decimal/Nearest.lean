import Testbed.Decimal.Binary

/-!
# Nearest doubles

The double nearest to a quotient of natural numbers, a half to the even neighbour.  The significand
is rounded once, to 53 bits or to the multiples of the least positive double; a carry out of the
significand falls into the exponent field of its own accord, and a quotient beyond the largest
finite double gives infinity.
-/

namespace Testbed.Decimal

/-- The exponent of the leading binary digit of `num / den`, which is positive. -/
def leadingBit (num den : Nat) : Int :=
  let k : Int := (num.log2 : Int) - den.log2
  if den * raise 2 k ≤ num * raise 2 (-k) then k else k - 1

/-- The bits of the double nearest to `num / den`, sign aside. -/
def nearestBits (num den : Nat) : Nat :=
  if num = 0 then 0
  else
    let unit : Int := max (leadingBit num den - 52) (-1074)
    let significand := roundDiv (num * raise 2 (-unit)) (den * raise 2 unit)
    min ((unit + 1074).toNat * hiddenBit + significand) (2047 * hiddenBit)

/-- The double nearest to `num / den`. -/
def nearest (num den : Nat) : Float :=
  Float.ofBits (UInt64.ofNat (nearestBits num den))

@[simp]
theorem nearestBits_zero (den : Nat) : nearestBits 0 den = 0 := rfl

theorem nearestBits_le (num den : Nat) : nearestBits num den ≤ 2047 * hiddenBit := by
  unfold nearestBits
  split
  · omega
  · exact Nat.min_le_right _ _

/-- The double nearest to `mantissa * 10 ^ exponent`.  Exponents far outside the range of the finite
doubles are settled without computing the power. -/
def nearestScaled (mantissa : Nat) (exponent : Int) : Float :=
  let lead := (Nat.toDigits 10 mantissa).length + exponent
  if mantissa = 0 ∨ lead < -400 then nearest 0 1
  else if 400 < lead then nearest (raise 10 400) 1
  else nearest (mantissa * raise 10 exponent) (raise 10 (-exponent))

/-- The double nearest to an integer, infinite where it lies beyond the finite doubles. -/
def nearestInt (n : Int) : Float :=
  let magnitude := nearest n.natAbs 1
  if n < 0 then -magnitude else magnitude

end Testbed.Decimal
