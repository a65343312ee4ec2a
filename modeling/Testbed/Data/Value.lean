import Testbed.Decimal.Layout
import Testbed.Text.Quoted

/-!
# Configuration values

Configuration files and options hold dynamic data: scalars, lists, mappings and sets.  A mapping
keeps its entries in the order in which the keys first appeared, and no two of its keys are the
same.  Numbers are the same key if they are equal as numbers, so `1`, `1.0` and true are one key.
-/

namespace Testbed.Data

/-- A day of the calendar. -/
structure Date where
  year : Nat
  month : Nat
  day : Nat
deriving DecidableEq, Repr

/-- A time of a day, exact to the microsecond, with its distance from universal time if known. -/
structure Moment where
  date : Date
  hour : Nat
  minute : Nat
  second : Nat
  micro : Nat
  /-- Seconds east of Greenwich. -/
  offset : Option Int
deriving DecidableEq, Repr

inductive Value where
  | null
  | flag (b : Bool)
  | int (n : Int)
  | float (x : Float)
  | text (s : String)
  | bytes (b : List UInt8)
  | date (d : Date)
  | moment (m : Moment)
  | list (items : List Value)
  | map (entries : List (Value × Value))
  | set (items : List Value)
deriving Inhabited

/-! ## Whole numbers among the doubles -/

/-- The integer that a double is, if it is one. -/
def wholeNumber? (x : Float) : Option Int :=
  match Decimal.classify x with
  | .finite b =>
    let (num, den) := b.quotient
    if num % den = 0 then
      some (if b.negative then -((num / den : Nat) : Int) else ((num / den : Nat) : Int))
    else none
  | _ => none

/-! ## Keys -/

/-- The form in which numbers are compared as keys. -/
def Value.keyForm : Value → Value
  | .flag b => .int (if b then 1 else 0)
  | .float x => match wholeNumber? x with
    | some n => .int n
    | none => .float x
  | v => v

/-- The number of days from the beginning of the calendar, a year being counted from March on. -/
def Date.ordinal (d : Date) : Nat :=
  let y := if d.month ≤ 2 then d.year - 1 else d.year
  let m := if d.month ≤ 2 then d.month + 9 else d.month - 3
  365 * y + y / 4 - y / 100 + y / 400 + (153 * m + 2) / 5 + d.day

/-- Universal time in microseconds, for moments that know it. -/
def Moment.universal? (m : Moment) : Option Int :=
  m.offset.map fun east ↦
    ((((m.date.ordinal * 24 + m.hour) * 60 + m.minute) * 60 + m.second : Nat) - east) * 1000000 +
      m.micro

/-- Whether two values are one key; lists, mappings and sets are none. -/
def Value.sameKey (a b : Value) : Bool :=
  match a.keyForm, b.keyForm with
  | .null, .null => true
  | .int m, .int n => m == n
  | .float x, .float y => x.toBits == y.toBits
  | .text s, .text t => s == t
  | .bytes s, .bytes t => s == t
  | .date d, .date e => d == e
  | .moment m, .moment n => match m.universal?, n.universal? with
    | some s, some t => s == t
    | none, none => m == n
    | _, _ => false
  | _, _ => false

abbrev Entries := List (Value × Value)

/-- Puts a value under a key: in the key's place if it has one, at the end otherwise. -/
def Entries.put : Entries → Value → Value → Entries
  | [], k, v => [(k, v)]
  | (k', v') :: rest, k, v =>
    if k'.sameKey k then (k', v) :: rest else (k', v') :: Entries.put rest k v

/-- The mapping that results from putting the entries in order. -/
def Entries.ofList (pairs : List (Value × Value)) : Entries :=
  pairs.foldl (fun entries pair ↦ entries.put pair.1 pair.2) []

/-- The value under a text key. -/
def Entries.get? (entries : Entries) (name : String) : Option Value :=
  (entries.find? fun entry ↦ entry.1.sameKey (.text name)).map Prod.snd

@[simp]
theorem Value.keyForm_text (s : String) : (Value.text s).keyForm = .text s := rfl

@[simp]
theorem Value.sameKey_text (s t : String) : (Value.text s).sameKey (.text t) = (s == t) := rfl

/-! ## Texts of scalars -/

/-- A natural number with at least `width` digits. -/
def padded (width n : Nat) : String :=
  let ds := Nat.toDigits 10 n
  String.ofList (List.replicate (width - ds.length) '0' ++ ds)

/-- Year, month and day, joined by hyphens. -/
def Date.iso (d : Date) : String :=
  padded 4 d.year ++ "-" ++ padded 2 d.month ++ "-" ++ padded 2 d.day

/-- A distance from universal time in hours and minutes, with seconds where there are any. -/
def isoOffset (east : Int) : String :=
  let n := east.natAbs
  (if east < 0 then "-" else "+") ++ padded 2 (n / 3600) ++ ":" ++ padded 2 (n / 60 % 60) ++
    (if n % 60 = 0 then "" else ":" ++ padded 2 (n % 60))

def Moment.iso (m : Moment) : String :=
  m.date.iso ++ "T" ++ padded 2 m.hour ++ ":" ++ padded 2 m.minute ++ ":" ++ padded 2 m.second ++
    (if m.micro = 0 then "" else "." ++ padded 6 m.micro) ++
    (match m.offset with
      | none => ""
      | some east => isoOffset east)

/-- How a byte string is shown: like a quoted text, with every byte outside ASCII escaped. -/
def shownBytes (bytes : List UInt8) : String :=
  let cs := bytes.map fun b ↦ Char.ofNat b.toNat
  let quote := Text.quoteOf cs
  let one (c : Char) : List Char :=
    if c.toNat < 0x7F then Text.escape quote c else '\\' :: 'x' :: Text.hex 2 c.toNat
  String.ofList ('b' :: quote :: cs.flatMap one ++ [quote])

/-- The parts of a moment's constructor call; trailing zeros of the time are left out. -/
def Moment.shownParts (m : Moment) : List Nat :=
  let whole := [m.date.year, m.date.month, m.date.day, m.hour, m.minute]
  if m.micro ≠ 0 then whole ++ [m.second, m.micro]
  else if m.second ≠ 0 then whole ++ [m.second]
  else whole

/-- How a distance from universal time is shown. -/
def shownOffset (east : Int) : String :=
  if east = 0 then "datetime.timezone.utc"
  else if 0 < east then "datetime.timezone(datetime.timedelta(seconds=" ++ toString east ++ "))"
  else
    "datetime.timezone(datetime.timedelta(days=-1, seconds=" ++ toString (86400 + east) ++ "))"

/-- How a scalar is shown inside a message. -/
def Value.shown : Value → String
  | .null => "None"
  | .flag b => if b then "True" else "False"
  | .int n => toString n
  | .float x => Decimal.shortestText x
  | .text s => Text.quoted s
  | .bytes b => shownBytes b
  | .date d =>
    "datetime.date(" ++ ", ".intercalate ([d.year, d.month, d.day].map toString) ++ ")"
  | .moment m =>
    "datetime.datetime(" ++ ", ".intercalate (m.shownParts.map toString) ++
      (match m.offset with
        | none => ""
        | some east => ", tzinfo=" ++ shownOffset east) ++ ")"
  | .list _ => "[...]"
  | .map _ => "\x7b...\x7d"
  | .set _ => "\x7b...\x7d"

end Testbed.Data
