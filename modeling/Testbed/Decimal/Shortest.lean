import Testbed.Decimal.Binary

/-!
# Shortest decimals

The decimal with the fewest digits that reads back as a given double, and the decimal with a given
number of digits nearest to it.  For each number of digits the double lies between two neighbours on
the decimal grid of that many digits; if any point of the grid lies in the interval of reals that
round to the double, one of these two does.  The ends of the interval belong to it exactly if the
significand is even.
-/

namespace Testbed.Decimal

/-- The decimal `digits * 10 ^ exponent`. -/
structure Digits where
  digits : Nat
  exponent : Int
deriving Repr, DecidableEq

/-- The grid of multiples of `10 ^ exponent` seen from a double: a grid point `d` is `d * step`, and
`n` quarters of the double's unit are `n * quarter`, in a common unit. -/
structure Grid where
  step : Nat
  quarter : Nat
deriving Repr

def Binary.grid (b : Binary) (exponent : Int) : Grid where
  step := raise 10 exponent * raise 2 (2 - b.exponent)
  quarter := raise 10 (-exponent) * raise 2 (b.exponent - 2)

/-- Whether the grid point `d` reads back as the double. -/
def Grid.hits (g : Grid) (b : Binary) (d : Nat) : Bool :=
  let low := (4 * b.significand - if b.narrow then 1 else 2) * g.quarter
  let high := (4 * b.significand + 2) * g.quarter
  if b.significand % 2 = 0 then low ≤ d * g.step && d * g.step ≤ high
  else low < d * g.step && d * g.step < high

/-- The neighbour of the double on the grid that reads back, the nearer one if both do. -/
def Grid.nearest? (g : Grid) (b : Binary) : Option Nat :=
  let value := 4 * b.significand * g.quarter
  let below := value / g.step
  match g.hits b below, g.hits b (below + 1) with
  | true, true => some (roundDiv value g.step)
  | true, false => some below
  | false, true => some (below + 1)
  | false, false => none

/-- Moves trailing zeros of the digits into the exponent. -/
def stripZeros : (fuel : Nat) → Digits → Digits
  | 0, d => d
  | fuel + 1, d =>
    if d.digits % 10 = 0 ∧ d.digits ≠ 0 then stripZeros fuel ⟨d.digits / 10, d.exponent + 1⟩ else d

def Digits.normalize (d : Digits) : Digits :=
  stripZeros (Nat.toDigits 10 d.digits).length d

/-- The digits of a double on the grid with `count` digits. -/
def Binary.digitsOn (b : Binary) (lead : Int) (count : Nat) : Option Digits :=
  let exponent := lead - count + 1
  ((b.grid exponent).nearest? b).map fun d ↦ ⟨d, exponent⟩

/-- The fewest digits that read back; seventeen always do. -/
def Binary.shortest (b : Binary) : Digits :=
  if b.significand = 0 then ⟨0, 0⟩
  else
    let (num, den) := b.quotient
    let lead := leadingExponent num den
    (((List.range 17).findSome? fun n ↦ b.digitsOn lead (n + 1)).getD ⟨0, 0⟩).normalize

/-- The nearest decimal with `count` digits, a half to the even neighbour. -/
def Binary.rounded (b : Binary) (count : Nat) : Digits :=
  if b.significand = 0 then ⟨0, 0⟩
  else
    let (num, den) := b.quotient
    let exponent := leadingExponent num den - count + 1
    Digits.normalize ⟨roundDiv (num * raise 10 (-exponent)) (den * raise 10 exponent), exponent⟩

end Testbed.Decimal
