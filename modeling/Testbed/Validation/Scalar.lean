import Testbed.Decimal.Numeral
import Testbed.Path
import Testbed.Text.Blank
import Testbed.Text.Digit
import Testbed.Text.Utf8
import Testbed.Validation.Issue

/-!
# Checks of values

Checks are lenient where the meaning is plain: a flag may be written as a word or a number, an
integer as a text or as a double without a fraction, and a text as its bytes.
-/

namespace Testbed.Validation

open Data (Value Entries)

/-! ## Texts -/

def text : Value → Checked String
  | .text s => .ok s
  | .bytes b => match Text.decode? b with
    | some s => .ok s
    | none => reject .undecodable
  | _ => reject .notText

/-- The text of a scalar that may be written as a text; undecodable bytes are refused as `unclear`. -/
def written? (v : Value) (unclear : Defect) : Option (Checked String) :=
  match v with
  | .text s => some (.ok s)
  | .bytes b => match Text.decode? b with
    | some s => some (.ok s)
    | none => some (reject unclear)
  | _ => none

/-! ## Flags -/

def flagWords : List (String × Bool) :=
  [("0", false), ("off", false), ("f", false), ("false", false), ("n", false), ("no", false),
    ("1", true), ("on", true), ("t", true), ("true", true), ("y", true), ("yes", true)]

def flagOfWord (s : String) : Checked Bool :=
  match flagWords.find? fun (word, _) ↦ word.toList = s.toList.map Char.toLower with
  | some (_, b) => .ok b
  | none => reject .unclearFlag

def flagOfInt (n : Int) : Checked Bool :=
  if n = 0 then .ok false else if n = 1 then .ok true else reject .unclearFlag

def flag (v : Value) : Checked Bool :=
  match v with
  | .flag b => .ok b
  | .int n => if -indexBound ≤ n ∧ n < indexBound then flagOfInt n else reject .notFlag
  | .float x => match Data.wholeNumber? x with
    | some n => if -indexBound < n ∧ n < indexBound then flagOfInt n else reject .notFlag
    | none => reject .notFlag
  | v => match written? v .unclearFlag with
    | some (.ok s) => flagOfWord s
    | some (.error issues) => .error issues
    | none => reject .notFlag

/-! ## Integers -/

/-- Digits with single underscores among them; gives the digits. -/
def digits? : List Char → Option (List Char)
  | [] => none
  | [c] => if c.isDigit then some [c] else none
  | c :: '_' :: rest => if c.isDigit then (digits? rest).map (c :: ·) else none
  | c :: rest => if c.isDigit then (digits? rest).map (c :: ·) else none

/-- An integer without sign, which may end in a point and zeros. -/
def magnitude? (cs : List Char) : Option Nat :=
  let whole := cs.takeWhile (· ≠ '.')
  if ((cs.drop whole.length).drop 1).all (· = '0') then (digits? whole).map Text.natOfDigits
  else none

/-- The integer that a text without blanks around writes. -/
def integer? : List Char → Option Int
  | '-' :: rest => (magnitude? rest).map fun n ↦ -n
  | '+' :: rest => (magnitude? rest).map fun n ↦ n
  | cs => (magnitude? cs).map fun n ↦ n

/-- The longest text that is read as an integer. -/
def maxIntegerLength : Nat := 4300

def integerOfText (s : String) : Checked Int :=
  let cs := Text.trim s.toList Text.isWhite
  if maxIntegerLength < cs.length then reject .oversizedInteger
  else match integer? cs with
    | some n => .ok n
    | none => reject .unclearInteger

def integerOfFloat (x : Float) : Checked Int :=
  match Decimal.classify x with
  | .finite _ => match Data.wholeNumber? x with
    | some n => if -indexBound < n ∧ n < indexBound then .ok n else reject .oversizedInteger
    | none => reject .fractionalInteger
  | _ => reject .infiniteInteger

def integer (v : Value) : Checked Int :=
  match v with
  | .flag b => .ok (if b then 1 else 0)
  | .int n => .ok n
  | .float x => integerOfFloat x
  | v => match written? v .unclearInteger with
    | some (.ok s) => integerOfText s
    | some (.error issues) => .error issues
    | none => reject .notInteger

def integerFrom (least : Int) (v : Value) : Checked Int :=
  match integer v with
  | .ok n => if n < least then reject (.atLeast least) else .ok n
  | .error issues => .error issues

/-! ## Numbers -/

def numberOfText (s : String) : Checked Float :=
  match Decimal.real? (Decimal.withoutUnderscores (Text.trim s.toList Text.isWhite)) with
  | some x => .ok x
  | none => reject .unclearNumber

/-- A time limit: absent, a duration, or a number given as a flag or as the bytes of a text. -/
def limit (v : Value) : Checked (Option Float) :=
  let duration (given : Duration.Given) : Checked (Option Float) :=
    match Duration.parse given with
    | .ok x => .ok (some x)
    | .error e => reject (.badDuration e)
  match v with
  | .null => .ok none
  | .flag b => .ok (some (if b then 1.0 else 0.0))
  | .int n => duration (.whole n)
  | .float x => duration (.real x)
  | .text s => duration (.text s)
  | .bytes b => match Text.decode? b with
    | some s => (numberOfText s).map some
    | none => reject .unclearNumber
  | _ => reject .notNumber

/-! ## Paths -/

def path : Value → Checked Path
  | .text s => .ok (Path.ofString s)
  | _ => reject .notPath

def optional {α : Type} (check : Value → Checked α) : Value → Checked (Option α)
  | .null => .ok none
  | v => (check v).map some

/-! ## Containers -/

/-- A list of texts. -/
def texts : Value → Checked (List String)
  | .list vs => Checked.all (vs.mapIdx fun i v ↦ (text v).under (.index i))
  | .text _ => reject (.textAsSequence "str")
  | .bytes _ => reject (.textAsSequence "bytes")
  | _ => reject .notSequence

/-- A list of at least one text. -/
def someTexts (v : Value) : Checked (List String) :=
  match texts v with
  | .ok [] => reject .tooShort
  | c => c

/-- An entry of a mapping with texts for keys. -/
def entry {α : Type} (check : Value → Checked α) (key v : Value) : Checked (String × α) :=
  Checked.both ((text key).under (.name "[key]")) (check v) |>.under (.ofKey key)

/-- The later of two entries of one name gives the value. -/
def distinct {α : Type} (entries : List (String × α)) : List (String × α) :=
  entries.foldl (fun es (name, v) ↦
    if es.any (·.1 = name) then es.map fun e ↦ if e.1 = name then (name, v) else e
    else es ++ [(name, v)]) []

/-- The entries of a mapping with texts for keys. -/
def mapping {α : Type} (check : Value → Checked α) : Value → Checked (List (String × α))
  | .map es => (Checked.all (es.map fun (key, v) ↦ entry check key v)).map distinct
  | _ => reject .notMapping

/-- Any value. -/
def anything (v : Value) : Checked Value :=
  .ok v

/-! ## Records -/

/-- A field of a record, with its default. -/
def field {α : Type} (es : Entries) (name : String) (default : α) (check : Value → Checked α) :
    Checked α :=
  match es.get? name with
  | none => .ok default
  | some v => (check v).under (.name name)

/-- A field that has to be given. -/
def requiredField {α : Type} (es : Entries) (name : String) (check : Value → Checked α) :
    Checked α :=
  match es.get? name with
  | none => (reject .missing).under (.name name)
  | some v => (check v).under (.name name)

/-- Refuses fields that are not among those named. -/
def noOthers (es : Entries) (names : List String) : Checked Unit :=
  let others := es.filterMap fun (key, _) ↦ match key with
    | .text s => if names.contains s then none else some ⟨[.ofKey key], .unknownField⟩
    | key => some ⟨[.ofKey key], .unnamedField⟩
  if others.isEmpty then .ok () else .error others

end Testbed.Validation
