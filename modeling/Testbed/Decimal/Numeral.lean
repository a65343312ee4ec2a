import Testbed.Decimal.Nearest
import Testbed.Text.Blank
import Testbed.Text.Digit
import Testbed.Text.Hex

/-!
# Numerals

How numbers are written: integers in a base, with a sign, digits of any script and single
underscores between digits; and real numbers with a point, an exponent, or the word for an
exceptional one.
-/

namespace Testbed.Decimal

/-! ## Integers -/

/-- Why a text is no integer. -/
inductive Unread where
  | notNumeral
  | tooLong (digits : Nat)
deriving DecidableEq, Repr

/-- The largest number of digits that are read in a base that is no power of two. -/
def maxDigits : Nat := 4300

/-- How it is reported that a number has too many digits. -/
def tooLongMessage (digits : Nat) : String :=
  "Exceeds the limit (" ++ toString maxDigits ++
    " digits) for integer string conversion: value has " ++ toString digits ++
    " digits; use sys.set_int_max_str_digits() to increase the limit"

/-- The value of a digit in a base up to sixteen. -/
def digitIn? (base : Nat) (c : Char) : Option Nat :=
  (Text.digitValue? c <|> Text.hexValue? c).filter (· < base)

/-- The values of digits with single underscores among them; there is at least one digit. -/
def digitsIn? (base : Nat) : List Char → Option (List Nat)
  | [] => none
  | [c] => (digitIn? base c).map fun d ↦ [d]
  | c :: '_' :: rest => do
    let d ← digitIn? base c
    let ds ← digitsIn? base rest
    return d :: ds
  | c :: rest => do
    let d ← digitIn? base c
    let ds ← digitsIn? base rest
    return d :: ds

/-- The mark that digits of a base may start with, after a zero. -/
def baseMark? : (base : Nat) → Option Char
  | 2 => some 'b'
  | 8 => some 'o'
  | 16 => some 'x'
  | _ => none

/-- Drops the mark of the base, with an underscore after it. -/
def withoutMark (base : Nat) : List Char → List Char
  | '0' :: mark :: rest =>
    if (baseMark? base).any (· = mark.toLower) then
      if rest.head? = some '_' then rest.tail else rest
    else '0' :: mark :: rest
  | cs => cs

/-- Splits off a sign and tells whether it is a minus sign. -/
def signed : List Char → Bool × List Char
  | '-' :: rest => (true, rest)
  | '+' :: rest => (false, rest)
  | cs => (false, cs)

/-- The blanks around a number.  In ASCII text the information separators are none. -/
def withoutBlanks (cs : List Char) : List Char :=
  Text.trim cs (if cs.all (·.toNat < 128) then Text.isWhite else Text.isBlank)

/-- The integer that a text writes in a base. -/
def integer (base : Nat) (text : List Char) : Except Unread Int :=
  let (negative, cs) := signed (withoutBlanks text)
  match digitsIn? base (withoutMark base cs) with
  | none => .error .notNumeral
  | some ds =>
    if (baseMark? base).isNone ∧ maxDigits < ds.length then .error (.tooLong ds.length)
    else
      let n : Nat := ds.foldl (fun n d ↦ base * n + d) 0
      .ok (if negative then -n else n)

/-! ## Real numbers -/

/-- The exponent of a real number, which may be missing. -/
def exponent? : List Char → Option Int
  | [] => some 0
  | mark :: rest =>
    let (negative, ds) := signed rest
    if mark.toLower ≠ 'e' || ds.isEmpty || !ds.all Char.isDigit then none
    else
      let n : Int := Text.natOfDigits ds
      some (if negative then -n else n)

/-- A number without its sign: digits with a point among or around them, and an exponent. -/
def unsigned? (cs : List Char) : Option Float :=
  let whole := cs.takeWhile Char.isDigit
  let rest := cs.dropWhile Char.isDigit
  let (fraction, rest) := match rest with
    | '.' :: rest => (rest.takeWhile Char.isDigit, rest.dropWhile Char.isDigit)
    | rest => ([], rest)
  if (whole ++ fraction).isEmpty then none
  else (exponent? rest).map fun e ↦
    nearestScaled (Text.natOfDigits (whole ++ fraction)) (e - fraction.length)

/-- A number or the word for an exceptional one, without its sign. -/
def magnitude? (cs : List Char) : Option Float :=
  let word := String.ofList (cs.map Char.toLower)
  if word = "inf" ∨ word = "infinity" then some (1.0 / 0.0)
  else if word = "nan" then some (0.0 / 0.0)
  else unsigned? cs

/-- The real number that a text without blanks writes with the digits of ASCII. -/
def real? (cs : List Char) : Option Float :=
  let (negative, cs) := signed cs
  (magnitude? cs).map fun x ↦ if negative then -x else x

/-- A text with its decimal digits replaced by those of ASCII. -/
def plainDigits (cs : List Char) : List Char :=
  cs.map fun c ↦ match Text.digitValue? c with
    | some d => Char.ofNat (48 + d)
    | none => c

/-- Drops single underscores between other characters. -/
def withoutUnderscores (cs : List Char) : List Char :=
  let inner := cs.head? != some '_' && cs.getLast? != some '_'
  let single := (cs.zip cs.tail).all fun (a, b) ↦ a ≠ '_' || b ≠ '_'
  if inner && single then cs.filter (· ≠ '_') else cs

end Testbed.Decimal
