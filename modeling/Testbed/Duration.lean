import Testbed.Data.Value
import Testbed.Decimal.Nearest
import Testbed.Text.Blank
import Testbed.Text.Digit

/-!
# Durations

A duration is written as a decimal amount with an optional unit, blanks allowed around both, or
given as a plain number of seconds.  The amount is read as a double and multiplied by the seconds in
its unit; a duration that is not positive is refused.
-/

namespace Testbed

/-- A unit of time. -/
inductive TimeUnit where
  | milliseconds
  | seconds
  | minutes
  | hours
deriving DecidableEq, Repr

/-- The length of a unit in seconds. -/
def TimeUnit.factor : TimeUnit → Float
  | .milliseconds => 0.001
  | .seconds => 1.0
  | .minutes => 60.0
  | .hours => 3600.0

/-- The unit that a suffix names; no suffix means seconds. -/
def TimeUnit.ofSuffix? : List Char → Option TimeUnit
  | [] => some .seconds
  | ['m', 's'] => some .milliseconds
  | ['s'] => some .seconds
  | ['m'] => some .minutes
  | ['h'] => some .hours
  | _ => none

/-- A written duration: the digits before and after the point, and the unit. -/
structure Amount where
  whole : List Char
  fraction : List Char
  unit : TimeUnit
deriving DecidableEq, Repr

namespace Amount

/-- The amount in seconds. -/
def seconds (a : Amount) : Float :=
  Decimal.nearestScaled (Text.natOfDigits (a.whole ++ a.fraction)) (-a.fraction.length) *
    a.unit.factor

def digits (cs : List Char) : List Char :=
  cs.takeWhile Text.isDecimalDigit

def afterDigits (cs : List Char) : List Char :=
  cs.dropWhile Text.isDecimalDigit

/-- What follows the digits before the point: digits after it, of which there is at least one, and
the suffix. -/
def tail? : List Char → Option (List Char × List Char)
  | '.' :: rest => if (digits rest).isEmpty then none else some (digits rest, afterDigits rest)
  | rest => some ([], rest)

def parse? (s : String) : Option Amount := do
  let cs := Text.trim s.toList
  guard !(digits cs).isEmpty
  let (fraction, suffix) ← tail? (afterDigits cs)
  let unit ← TimeUnit.ofSuffix? (suffix.dropWhile Text.isBlank)
  return { whole := digits cs, fraction := fraction, unit := unit }

end Amount

namespace Duration

/-- The forms in which a duration is given. -/
inductive Given where
  | flag (b : Bool)
  | whole (n : Int)
  | real (x : Float)
  | text (s : String)

def Given.shown : Given → String
  | .flag b => (Data.Value.flag b).shown
  | .whole n => (Data.Value.int n).shown
  | .real x => (Data.Value.float x).shown
  | .text s => (Data.Value.text s).shown

/-- Why a duration is refused. -/
inductive Error where
  /-- The text is no amount with a unit. -/
  | malformed (text : String)
  | notPositive (shown : String)
  /-- The integer lies beyond the finite doubles. -/
  | tooLarge
deriving DecidableEq, Repr

def Error.message : Error → String
  | .malformed text => "Invalid duration: " ++ Text.quoted text
  | .notPositive shown => "Duration must be positive: " ++ shown
  | .tooLarge => "int too large to convert to float"

/-- The double nearest to an integer, which has to be finite. -/
def ofWhole (n : Int) : Except Error Float :=
  let x := Decimal.nearestInt n
  if x.isInf then .error .tooLarge else .ok x

/-- The seconds that are meant, before their sign is looked at. -/
def Given.seconds : Given → Except Error Float
  | .flag b => .ok (if b then 1.0 else 0.0)
  | .whole n => ofWhole n
  | .real x => .ok x
  | .text s => match Amount.parse? s with
    | some a => .ok a.seconds
    | none => .error (.malformed s)

/-- The seconds of a duration, which are positive or not a number. -/
def parse (given : Given) : Except Error Float := do
  let x ← given.seconds
  if x ≤ 0 then .error (.notPositive given.shown) else .ok x

end Duration

end Testbed
