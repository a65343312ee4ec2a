import Testbed.Data.Value
import Testbed.Data.Yaml.Cursor
import Testbed.Decimal.Numeral
import Testbed.Text.Search

/-!
# Scalars of YAML

What the characters of a scalar mean.  A scalar without quotes and without a tag is resolved by its
form: words for flags and nothing, integers and doubles in several notations, and timestamps.  A
scalar with a tag is read as its tag says, whatever its form.
-/

namespace Testbed.Data.Yaml

/-- What a node is, by its tag. -/
inductive Tag where
  | null
  | flag
  | int
  | float
  | bytes
  | timestamp
  | text
  | list
  | map
  | set
  /-- A list of mappings with one entry each. -/
  | pairs
  /-- As a key: the entries of other mappings are added. -/
  | merge
  /-- As a key: the scalar that stands for the whole mapping. -/
  | stand
  | unknown
deriving DecidableEq, Repr

/-- What the names of the common tags start with. -/
def tagSpace : List Char := "tag:yaml.org,2002:".toList

def commonTags : List (String × Tag) :=
  [("null", .null), ("bool", .flag), ("int", .int), ("float", .float), ("binary", .bytes),
    ("timestamp", .timestamp), ("str", .text), ("seq", .list), ("map", .map), ("set", .set),
    ("omap", .pairs), ("pairs", .pairs), ("merge", .merge), ("value", .stand)]

def Tag.ofName (name : List Char) : Tag :=
  if tagSpace.isPrefixOf name then
    (commonTags.lookup (String.ofList (name.drop tagSpace.length))).getD .unknown
  else .unknown

/-! ## The forms of numbers -/

def afterSign : List Char → List Char
  | '-' :: rest => rest
  | '+' :: rest => rest
  | cs => cs

def isSpacedDigit (c : Char) : Bool :=
  c.isDigit || c = '_'

/-- A part of a number to the base sixty, the first part aside. -/
def isSixtieth : List Char → Bool
  | [a] => a.isDigit
  | [a, b] => '0' ≤ a && a ≤ '5' && b.isDigit
  | _ => false

/-- Digits, of which the first is no underscore. -/
def startsWithDigit (cs : List Char) : Bool :=
  cs.head?.any Char.isDigit

def isInteger (text : List Char) : Bool :=
  match afterSign text with
  | '0' :: 'b' :: rest => !rest.isEmpty && rest.all fun c ↦ c = '0' || c = '1' || c = '_'
  | '0' :: 'x' :: rest => !rest.isEmpty && rest.all fun c ↦ (Text.hexValue? c).isSome || c = '_'
  | '0' :: rest => rest.all fun c ↦ ('0' ≤ c && c ≤ '7') || c = '_'
  | cs =>
    match cs.dropWhile isSpacedDigit with
    | [] => startsWithDigit cs
    | ':' :: rest => startsWithDigit cs && (Text.segments [':'] rest).all isSixtieth
    | _ => false

/-- An exponent, which has a sign, or nothing. -/
def isExponent : List Char → Bool
  | [] => true
  | mark :: sign :: ds =>
    mark.toLower = 'e' && (sign = '-' || sign = '+') && !ds.isEmpty && ds.all Char.isDigit
  | _ => false

/-- The last part of a number to the base sixty that has a point. -/
def isLastSixtieth (cs : List Char) : Bool :=
  let whole := cs.takeWhile (· ≠ '.')
  match cs.drop whole.length with
  | _ :: fraction => isSixtieth whole && fraction.all isSpacedDigit
  | [] => false

def isDouble (text : List Char) : Bool :=
  let cs := afterSign text
  [".inf", ".Inf", ".INF"].contains (String.ofList cs) ||
    [".nan", ".NaN", ".NAN"].contains (String.ofList text) ||
    (match text with
      | '.' :: rest => startsWithDigit rest && isExponent (rest.dropWhile isSpacedDigit)
      | _ => false) ||
    (startsWithDigit cs &&
      match cs.dropWhile isSpacedDigit with
      | '.' :: rest => isExponent (rest.dropWhile isSpacedDigit)
      | ':' :: rest =>
        let parts := Text.segments [':'] rest
        parts.dropLast.all isSixtieth && parts.getLast?.any isLastSixtieth
      | _ => false)

/-! ## Timestamps -/

/-- A time of day as it is written, with the digits of its fraction. -/
structure WrittenTime where
  hour : Nat
  minute : Nat
  second : Nat
  fraction : List Char
  /-- Seconds east of Greenwich. -/
  offset : Option Int

structure WrittenTimestamp where
  date : Date
  time : Option WrittenTime

/-- A run of at least `least` and at most `most` digits. -/
def digitRun (least most : Nat) (cs : List Char) : Option (Nat × List Char) :=
  let ds := (cs.take most).takeWhile Char.isDigit
  if ds.length < least then none else some (Text.natOfDigits ds, cs.drop ds.length)

def after (c : Char) : List Char → Option (List Char)
  | [] => none
  | d :: rest => if d = c then some rest else none

def isSpace (c : Char) : Bool :=
  c = ' ' || c = '\t'

/-- The distance from universal time at the end of a timestamp. -/
def writtenOffset? (cs : List Char) : Option (Option Int) :=
  match cs, cs.dropWhile isSpace with
  | [], _ => some none
  | _, ['Z'] => some (some 0)
  | _, sign :: rest => do
    guard (sign = '-' ∨ sign = '+')
    let (hours, rest) ← digitRun 1 2 rest
    let minutes ← match rest with
      | [] => some 0
      | rest => do
        let (minutes, rest) ← digitRun 2 2 (← after ':' rest)
        guard rest.isEmpty
        some minutes
    let east : Int := (hours * 60 + minutes) * 60
    return some (if sign = '-' then -east else east)
  | _, [] => none

/-- What stands between the day and the time: a letter or spaces. -/
def afterDay : List Char → Option (List Char)
  | 'T' :: rest => some rest
  | 't' :: rest => some rest
  | c :: rest => if isSpace c then some (rest.dropWhile isSpace) else none
  | [] => none

def writtenTimestamp? (cs : List Char) : Option WrittenTimestamp := do
  let (year, rest) ← digitRun 4 4 cs
  let (month, rest) ← digitRun 1 2 (← after '-' rest)
  let (day, rest) ← digitRun 1 2 (← after '-' rest)
  let date : Date := { year := year, month := month, day := day }
  if rest.isEmpty then return { date := date, time := none }
  else
    let (hour, rest) ← digitRun 1 2 (← afterDay rest)
    let (minute, rest) ← digitRun 2 2 (← after ':' rest)
    let (second, rest) ← digitRun 2 2 (← after ':' rest)
    let (fraction, rest) := match rest with
      | '.' :: rest => (rest.takeWhile Char.isDigit, rest.dropWhile Char.isDigit)
      | rest => ([], rest)
    let offset ← writtenOffset? rest
    return {
      date := date
      time := some
        { hour := hour, minute := minute, second := second, fraction := fraction, offset := offset }
    }

/-- Whether a scalar has the form of a timestamp; a date alone is written in full. -/
def isTimestamp (text : List Char) : Bool :=
  match writtenTimestamp? text with
  | some t => t.time.isSome || text.length = 10
  | none => false

/-! ## Resolution by form -/

/-- A word in lower case, capitalized or in upper case. -/
def isWord (words : List String) (text : List Char) : Bool :=
  words.any fun word ↦
    let w := word.toList
    text = w || text = w.map Char.toUpper ||
      text = (w.take 1).map Char.toUpper ++ w.drop 1

def flagWords : List (String × Bool) :=
  [("yes", true), ("no", false), ("true", true), ("false", false), ("on", true), ("off", false)]

/-- What a scalar without a tag is.  A line break at its end does not count. -/
def resolve (chars : List Char) : Tag :=
  let text := if chars.length ≠ 1 && chars.getLast? = some '\n' then chars.dropLast else chars
  if chars.isEmpty || text = ['~'] || isWord ["null"] text then .null
  else if isWord (flagWords.map Prod.fst) text then .flag
  else if isDouble text then .float
  else if isInteger text then .int
  else if text = ['<', '<'] then .merge
  else if isTimestamp text then .timestamp
  else if text = ['='] then .stand
  else if ["!", "&", "*"].contains (String.ofList text) then .unknown
  else .text

/-! ## Values -/

def integerIn (base : Nat) (cs : List Char) : Except Fault Int :=
  match Decimal.integer base cs with
  | .ok n => .ok n
  | .error .notNumeral => .error (.badInteger base (String.ofList cs))
  | .error (.tooLong digits) => .error (.longInteger digits)

/-- A number without underscores and its sign. -/
def splitNumber (chars : List Char) : Except Fault (Bool × List Char) :=
  match chars.filter (· ≠ '_') with
  | [] => .error .emptyNumber
  | '-' :: rest => .ok (true, rest)
  | '+' :: rest => .ok (false, rest)
  | cs => .ok (false, cs)

def readInteger (chars : List Char) : Except Fault Int := do
  let (negative, cs) ← splitNumber chars
  let n ← match cs with
    | [] => .error .emptyNumber
    | ['0'] => .ok 0
    | '0' :: 'b' :: rest => integerIn 2 rest
    | '0' :: 'x' :: rest => integerIn 16 rest
    | '0' :: _ => integerIn 8 cs
    | _ =>
      if cs.contains ':' then do
        let parts ← (Text.segments [':'] cs).mapM (integerIn 10)
        .ok (parts.foldl (fun n part ↦ 60 * n + part) 0)
      else integerIn 10 cs
  .ok (if negative then -n else n)

def realPart (cs : List Char) : Except Fault Float :=
  match Decimal.real? (Decimal.withoutBlanks (Decimal.plainDigits cs)) with
  | some x => .ok x
  | none => .error (.badFloat (String.ofList cs))

/-- The sum of the parts with the powers of sixty, starting with the last part. -/
def sumOfSixties (parts : List Float) : Float :=
  (parts.reverse.foldl
    (fun (sum, base) part ↦ (sum + part * Decimal.nearest base 1, base * 60)) ((0.0 : Float), 1)).1

def readDouble (chars : List Char) : Except Fault Float := do
  let (negative, cs) ← splitNumber (chars.map Char.toLower)
  if cs = ".nan".toList then .ok (0.0 / 0.0)
  else
    let x ←
      if cs = ".inf".toList then .ok (1.0 / 0.0)
      else if cs.contains ':' then do
        .ok (sumOfSixties (← (Text.segments [':'] cs).mapM realPart))
      else realPart cs
    .ok (if negative then -x else x)

def readFlag (chars : List Char) : Except Fault Bool :=
  let word := String.ofList (chars.map Char.toLower)
  match flagWords.lookup word with
  | some b => .ok b
  | none => .error (.badFlag word)

/-- The value of a character of a text to the base sixty-four. -/
def sextet? (c : Char) : Option Nat :=
  if 'A' ≤ c ∧ c ≤ 'Z' then some (c.toNat - 65)
  else if 'a' ≤ c ∧ c ≤ 'z' then some (c.toNat - 71)
  else if c.isDigit then some (c.toNat + 4)
  else if c = '+' then some 62
  else if c = '/' then some 63
  else none

/-- Reads groups of four sextets as three bytes.  Other characters are skipped, and padding ends the
bytes once it completes a group; `place` sextets of the group have been read, `left` are the bits
that no byte has taken yet. -/
def bytesOfSextets : (place padding left : Nat) → List Char → Option (List UInt8)
  | place, _, _, [] => if place = 0 then some [] else none
  | place, padding, left, c :: cs =>
    if c = '=' then
      if 2 ≤ place ∧ 4 ≤ place + padding + 1 then some []
      else bytesOfSextets place (if 2 ≤ place then padding + 1 else padding) left cs
    else match sextet? c, place with
      | none, _ => bytesOfSextets place padding left cs
      | some n, 0 => bytesOfSextets 1 0 n cs
      | some n, 1 => (bytesOfSextets 2 0 (n % 16) cs).map (UInt8.ofNat (left * 4 + n / 16) :: ·)
      | some n, 2 => (bytesOfSextets 3 0 (n % 4) cs).map (UInt8.ofNat (left * 16 + n / 4) :: ·)
      | some n, _ => (bytesOfSextets 0 0 0 cs).map (UInt8.ofNat (left * 64 + n) :: ·)

def readBytes (chars : List Char) : Except Fault (List UInt8) :=
  if chars.all (·.toNat < 128) then
    match bytesOfSextets 0 0 0 chars with
    | some bytes => .ok bytes
    | none => .error .malformed
  else .error .malformed

def isLeapYear (year : Nat) : Bool :=
  year % 4 = 0 && (year % 100 ≠ 0 || year % 400 = 0)

def daysInMonth (year month : Nat) : Nat :=
  if month = 2 then (if isLeapYear year then 29 else 28)
  else if month = 4 ∨ month = 6 ∨ month = 9 ∨ month = 11 then 30
  else 31

def checkDate (d : Date) : Except Fault Unit :=
  if d.year = 0 then .error (.badDate "year 0 is out of range")
  else if d.month = 0 ∨ 12 < d.month then .error (.badDate "month must be in 1..12")
  else if d.day = 0 ∨ daysInMonth d.year d.month < d.day then
    .error (.badDate "day is out of range for month")
  else .ok ()

def checkTime (t : WrittenTime) : Except Fault Unit :=
  if 23 < t.hour then .error (.badDate "hour must be in 0..23")
  else if 59 < t.minute then .error (.badDate "minute must be in 0..59")
  else if 59 < t.second then .error (.badDate "second must be in 0..59")
  else .ok ()

def secondsPerDay : Int := 86400

/-- A distance from universal time is less than a day. -/
def checkOffset (east : Int) : Except Fault Unit :=
  if -secondsPerDay < east ∧ east < secondsPerDay then .ok ()
  else
    let days := east / secondsPerDay
    let seconds := east % secondsPerDay
    let parts := "days=" ++ toString days ++
      (if seconds = 0 then "" else ", seconds=" ++ toString seconds)
    .error (.badDate ("offset must be a timedelta strictly between -timedelta(hours=24) and " ++
      "timedelta(hours=24), not datetime.timedelta(" ++ parts ++ ")."))

/-- Microseconds of a fraction, further digits cut off. -/
def microseconds (fraction : List Char) : Nat :=
  let ds := fraction.take 6
  Text.natOfDigits (ds ++ List.replicate (6 - ds.length) '0')

def readTimestamp (chars : List Char) : Except Fault Value :=
  let text := if chars.getLast? = some '\n' then chars.dropLast else chars
  match writtenTimestamp? text with
  | none => .error .noTimestamp
  | some ⟨d, none⟩ => do
    checkDate d
    .ok (.date d)
  | some ⟨d, some t⟩ => do
    if let some east := t.offset then checkOffset east
    checkDate d
    checkTime t
    .ok (.moment
      { date := d, hour := t.hour, minute := t.minute, second := t.second
        micro := microseconds t.fraction, offset := t.offset })

/-- The value of a scalar with a tag. -/
def readScalar (tag : Tag) (chars : List Char) : Except Fault Value :=
  match tag with
  | .null => .ok .null
  | .flag => (readFlag chars).map .flag
  | .int => (readInteger chars).map .int
  | .float => (readDouble chars).map .float
  | .bytes => (readBytes chars).map .bytes
  | .timestamp => readTimestamp chars
  | .text => .ok (.text (String.ofList chars))
  | _ => .error .malformed

end Testbed.Data.Yaml
