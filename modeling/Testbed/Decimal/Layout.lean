import Testbed.Decimal.Shortest

/-!
# Laying out decimals

The written form of a double: its digits with the point among them while the exponent is moderate,
and one digit before the point with a signed exponent of at least two digits otherwise.
-/

namespace Testbed.Decimal

/-- The decisions of a written form. -/
structure Layout where
  /-- The least exponent of the leading digit that is written without an exponent. -/
  low : Int
  /-- The least exponent of the leading digit from which on an exponent is written again. -/
  high : Int
  /-- Whether a whole number without exponent ends in a point and a zero. -/
  point : Bool
  infinity : String
  nan : String
deriving Repr

/-- The digit characters of a natural number. -/
def digitChars (n : Nat) : List Char :=
  Nat.toDigits 10 n

/-- An exponent with its sign and at least two digits. -/
def exponentChars (e : Int) : List Char :=
  let ds := digitChars e.natAbs
  (if e < 0 then '-' else '+') :: (if ds.length < 2 then '0' :: ds else ds)

/-- The digits with the point after the one of exponent zero. -/
def positional (l : Layout) (ds : List Char) (lead : Int) : List Char :=
  if lead < 0 then '0' :: '.' :: List.replicate (-lead - 1).toNat '0' ++ ds
  else
    let whole := lead.toNat + 1
    if ds.length ≤ whole then
      ds ++ List.replicate (whole - ds.length) '0' ++ (if l.point then ['.', '0'] else [])
    else ds.take whole ++ '.' :: ds.drop whole

/-- One digit, the rest after a point, and the exponent. -/
def scientific (ds : List Char) (lead : Int) : List Char :=
  let mantissa := match ds with
    | d :: e :: rest => d :: '.' :: e :: rest
    | ds => ds
  mantissa ++ 'e' :: exponentChars lead

def Layout.magnitude (l : Layout) (d : Digits) : List Char :=
  let ds := digitChars d.digits
  let lead := d.exponent + ds.length - 1
  if d.digits = 0 ∨ (l.low ≤ lead ∧ lead < l.high) then positional l ds lead else scientific ds lead

/-- Writes a double whose digits are chosen by `choose`. -/
def Layout.write (l : Layout) (choose : Binary → Digits) (x : Float) : String :=
  let signed (negative : Bool) (s : String) : String := if negative then "-" ++ s else s
  match classify x with
  | .notANumber => l.nan
  | .infinite negative => signed negative l.infinity
  | .finite b => signed b.negative (String.ofList (l.magnitude (choose b)))

/-- The shortest decimal that reads back, without exponent from `1e-4` up to `1e16`, and always
recognizable as a fraction. -/
def shortestLayout : Layout where
  low := -4
  high := 16
  point := true
  infinity := "inf"
  nan := "nan"

def shortestText (x : Float) : String :=
  shortestLayout.write Binary.shortest x

/-- Six digits at most, without exponent from `1e-4` up to `1e6`. -/
def generalLayout : Layout where
  low := -4
  high := 6
  point := false
  infinity := "inf"
  nan := "nan"

def generalText (x : Float) : String :=
  generalLayout.write (Binary.rounded · 6) x

/-- The magnitude with a fixed number of places, a half to the even neighbour. -/
def fixedChars (places : Nat) (b : Binary) : List Char :=
  let (num, den) := b.quotient
  let scale := raise 10 places
  let n := roundDiv (num * scale) den
  let fraction := digitChars (n % scale)
  digitChars (n / scale) ++
    '.' :: List.replicate (places - fraction.length) '0' ++ fraction

/-- Two places after the point; the sign of a negative zero is kept. -/
def fixedText (x : Float) : String :=
  match classify x with
  | .notANumber => "nan"
  | .infinite negative => if negative then "-inf" else "inf"
  | .finite b => (if b.negative then "-" else "") ++ String.ofList (fixedChars 2 b)

end Testbed.Decimal
