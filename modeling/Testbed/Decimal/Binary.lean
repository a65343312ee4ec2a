/-!
# Binary fractions

A finite double is a signed integer multiple of a power of two.  The decimal texts of a double are
computed from that integer and that exponent alone, in exact arithmetic on natural numbers.
-/

namespace Testbed.Decimal

/-- The magnitude and sign of a finite double: `significand * 2 ^ exponent`. -/
structure Binary where
  negative : Bool
  significand : Nat
  exponent : Int
  /-- The next smaller double is half as far away as the next larger one. -/
  narrow : Bool
deriving Repr, DecidableEq

/-- A double by kind. -/
inductive Reading where
  | finite (value : Binary)
  | infinite (negative : Bool)
  | notANumber
deriving Repr, DecidableEq

/-- The weight of the bit above the 52 stored bits of a significand, `2 ^ 52`.  A double of full
precision has it set without storing it. -/
def hiddenBit : Nat := 0x10000000000000

/-- Reads the fields of a double out of its bits. -/
def classify (x : Float) : Reading :=
  let bits : Nat := x.toBits.toNat
  let negative : Bool := 2048 * hiddenBit ≤ bits
  let biased : Nat := bits / hiddenBit % 2048
  let fraction : Nat := bits % hiddenBit
  if biased = 2047 then
    if fraction = 0 then .infinite negative else .notANumber
  else if biased = 0 then .finite ⟨negative, fraction, -1074, false⟩
  else .finite ⟨negative, fraction + hiddenBit, (biased : Int) - 1075, fraction = 0 && 1 < biased⟩

/-- The power of `base` with the positive part of an exponent. -/
def raise (base : Nat) (e : Int) : Nat :=
  Nat.pow base e.toNat

/-- The magnitude as a quotient of natural numbers. -/
def Binary.quotient (b : Binary) : Nat × Nat :=
  (b.significand * raise 2 b.exponent, raise 2 (-b.exponent))

theorem raise_pos {base : Nat} (h : 0 < base) (e : Int) : 0 < raise base e :=
  Nat.pow_pos h

/-- The quotient rounded to the nearest natural number, a half to the even neighbour. -/
def roundDiv (num den : Nat) : Nat :=
  let q := num / den
  let r := num % den
  if 2 * r < den then q
  else if den < 2 * r then q + 1
  else if q % 2 = 0 then q else q + 1

/-- The exponent of the leading decimal digit of `num / den`, which is positive. -/
def leadingExponent (num den : Nat) : Int :=
  if den ≤ num then ((Nat.toDigits 10 (num / den)).length : Int) - 1
  else
    let shift := (List.range 400).find? fun (j : Nat) ↦ den ≤ num * raise 10 (j + 1)
    Int.negSucc (shift.getD 0)

end Testbed.Decimal
