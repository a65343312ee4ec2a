import Testbed.Data.Value
import Testbed.Text.Hex

/-!
# Writing JSON

Documents are written in ASCII: every other character is escaped by its UTF-16 units.  The indented
form puts each item on a line of its own; an empty list or object stays on one line.
-/

namespace Testbed.Data.Json

/-- The escape of one UTF-16 unit. -/
def escapedUnit (n : Nat) : List Char :=
  '\\' :: 'u' :: Text.hex 4 n

/-- One character of a text. -/
def escapedChar (c : Char) : List Char :=
  if c = '"' ∨ c = '\\' then ['\\', c]
  else if c = '\n' then ['\\', 'n']
  else if c = '\r' then ['\\', 'r']
  else if c = '\t' then ['\\', 't']
  else if c = '\x08' then ['\\', 'b']
  else if c = '\x0c' then ['\\', 'f']
  else
    let n := c.toNat
    if 0x20 ≤ n ∧ n < 0x7F then [c]
    else if n < 0x10000 then escapedUnit n
    else escapedUnit (0xD800 + (n - 0x10000) / 0x400) ++ escapedUnit (0xDC00 + n % 0x400)

def textChars (s : String) : List Char :=
  '"' :: s.toList.flatMap escapedChar ++ ['"']

/-- A double, the exceptional ones by name. -/
def floatText (x : Float) : String :=
  match Decimal.classify x with
  | .notANumber => "NaN"
  | .infinite negative => if negative then "-Infinity" else "Infinity"
  | .finite _ => Decimal.shortestText x

/-- A value that is neither list nor mapping; those that JSON does not know are texts. -/
def scalarChars : Value → List Char
  | .null => "null".toList
  | .flag b => (if b then "true" else "false").toList
  | .int n => (toString n).toList
  | .float x => (floatText x).toList
  | .text s => textChars s
  | v => textChars v.shown

/-- The name of a member. -/
def nameChars : Value → List Char
  | .text s => textChars s
  | v => textChars v.shown

/-- The decisions of a written form: how a line is broken at a depth, and what stands between
items and after a name. -/
structure Style where
  newline : Nat → List Char
  comma : List Char
  colon : List Char

/-- Two columns per level. -/
def indented : Style where
  newline depth := '\n' :: List.replicate (2 * depth) ' '
  comma := [',']
  colon := [':', ' ']

/-- Everything on one line. -/
def compact : Style where
  newline _ := []
  comma := [',', ' ']
  colon := [':', ' ']

mutual

def Style.chars (style : Style) (depth : Nat) : Value → List Char
  | .list [] => ['[', ']']
  | .list (v :: vs) =>
    '[' :: style.newline (depth + 1) ++ style.chars (depth + 1) v ++
      style.itemChars (depth + 1) vs ++ style.newline depth ++ [']']
  | .map [] => ['\x7b', '\x7d']
  | .map ((k, v) :: es) =>
    '\x7b' :: style.newline (depth + 1) ++ nameChars k ++ style.colon ++
      style.chars (depth + 1) v ++ style.memberChars (depth + 1) es ++ style.newline depth ++ ['\x7d']
  | v => scalarChars v

/-- The items after the first. -/
def Style.itemChars (style : Style) (depth : Nat) : List Value → List Char
  | [] => []
  | v :: vs =>
    style.comma ++ style.newline depth ++ style.chars depth v ++ style.itemChars depth vs

/-- The members after the first. -/
def Style.memberChars (style : Style) (depth : Nat) : List (Value × Value) → List Char
  | [] => []
  | (k, v) :: es =>
    style.comma ++ style.newline depth ++ nameChars k ++ style.colon ++ style.chars depth v ++
      style.memberChars depth es

end

def Style.write (style : Style) (v : Value) : String :=
  String.ofList (style.chars 0 v)

end Testbed.Data.Json
