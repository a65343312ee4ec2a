import Testbed.Data.Value
import Testbed.Decimal.Numeral

/-!
# Reading JSON

A reader of JSON documents that says what it missed and where.  Besides the numbers of the standard
it knows `NaN`, `Infinity` and `-Infinity`; of two members of one name the later gives the value.
While reading, a fault is located by the number of characters left, which becomes a position once
the length of the whole text is known.
-/

namespace Testbed.Data.Json

/-- What is wrong with a text that is no JSON document. -/
inductive Cause where
  | byteOrderMark
  | noValue
  | noName
  | noColon
  | noComma
  | moreData
  | openText
  | badEscape
  | badUnit
  | control
  /-- An integer with more digits than are converted. -/
  | tooLong (digits : Nat)
deriving DecidableEq, Repr

/-- A fault, with the number of characters from its place to the end. -/
structure Fault where
  cause : Cause
  left : Nat
deriving DecidableEq, Repr

/-- A reader gives its result with the characters that follow. -/
abbrev Result (α : Type) := Except Fault (α × List Char)

def fail {α : Type} (cause : Cause) (rest : List Char) : Except Fault α :=
  .error ⟨cause, rest.length⟩

/-- The four blanks that the standard allows between tokens. -/
def isJsonBlank (c : Char) : Bool :=
  c = ' ' || c = '\t' || c = '\n' || c = '\r'

def skipBlank (cs : List Char) : List Char :=
  cs.dropWhile isJsonBlank

/-! ## Texts -/

def isHighUnit (n : Nat) : Bool := 0xD800 ≤ n && n < 0xDC00

def isLowUnit (n : Nat) : Bool := 0xDC00 ≤ n && n < 0xE000

/-- The character of a code point.  Half a surrogate pair is no character, so texts that hold one are
left out of account: here the replacement character stands in its place. -/
def charOfPoint (n : Nat) : Char :=
  if n.isValidChar then Char.ofNat n else Char.ofNat 0xFFFD

/-- Four hexadecimal digits that are not the end of the text. -/
def unit? (cs : List Char) : Option Nat :=
  if 4 < cs.length then Text.natOfHex? (cs.take 4) else none

/-- The character behind `\u`, and how many characters write it. -/
def unescapeUnit (u : List Char) : Except Fault (Char × Nat) :=
  let cs := u.tail
  match unit? cs with
  | none => fail .badUnit u
  | some high =>
    match isHighUnit high && 10 < cs.length, cs.drop 4 with
    | true, '\\' :: 'u' :: next =>
      match unit? next with
      | none => fail .badUnit ('u' :: next)
      | some low =>
        if isLowUnit low then
          .ok (charOfPoint (0x10000 + (high - 0xD800) * 0x400 + (low - 0xDC00)), 11)
        else .ok (charOfPoint high, 5)
    | _, _ => .ok (charOfPoint high, 5)

/-- The character that an escape stands for, and how many characters after the backslash write it.
`rest` is what follows the backslash. -/
def unescape (rest : List Char) : Except Fault (Char × Nat) :=
  match rest with
  | 'u' :: _ => unescapeUnit rest
  | '"' :: _ => .ok ('"', 1)
  | '\\' :: _ => .ok ('\\', 1)
  | '/' :: _ => .ok ('/', 1)
  | 'b' :: _ => .ok ('\x08', 1)
  | 'f' :: _ => .ok ('\x0c', 1)
  | 'n' :: _ => .ok ('\n', 1)
  | 'r' :: _ => .ok ('\r', 1)
  | 't' :: _ => .ok ('\t', 1)
  | _ => fail .badEscape ('\\' :: rest)

/-- The text up to the closing quote; `start` is the number of characters left at the opening
one. -/
def textFrom (start : Nat) : List Char → Result (List Char)
  | [] => .error ⟨.openText, start⟩
  | c :: rest =>
    if c = '"' then .ok ([], rest)
    else if c = '\\' then
      if rest.isEmpty then .error ⟨.openText, start⟩
      else
        match unescape rest with
        | .error fault => .error fault
        | .ok (d, used) => (textFrom start (rest.drop used)).map fun (ds, rest) ↦ (d :: ds, rest)
    else if c.toNat < 0x20 then fail .control (c :: rest)
    else (textFrom start rest).map fun (ds, rest) ↦ (c :: ds, rest)
termination_by cs => cs.length
decreasing_by all_goals simp only [List.length_drop, List.length_cons]; omega

/-! ## Numbers -/

def digits (cs : List Char) : List Char :=
  cs.takeWhile Char.isDigit

/-- A point with the digits after it, of which there is at least one. -/
def fractionOf : List Char → List Char × List Char
  | '.' :: rest =>
    if (digits rest).isEmpty then ([], '.' :: rest) else (digits rest, rest.dropWhile Char.isDigit)
  | cs => ([], cs)

/-- The digits of an exponent, which are not empty. -/
def exponentDigits? (negative : Bool) (cs : List Char) : Option (Int × List Char) :=
  if (digits cs).isEmpty then none
  else
    let n : Int := Text.natOfDigits (digits cs)
    some (if negative then -n else n, cs.dropWhile Char.isDigit)

def exponent? : List Char → Option (Int × List Char)
  | c :: rest =>
    if c = 'e' ∨ c = 'E' then
      match rest with
      | '-' :: rest => exponentDigits? true rest
      | '+' :: rest => exponentDigits? false rest
      | rest => exponentDigits? false rest
    else none
  | [] => none

/-- The digits before the point: a zero alone, or digits that start with another one. -/
def wholeDigits : List Char → List Char
  | '0' :: _ => ['0']
  | cs => digits cs

/-- A number without its sign. -/
def unsigned (negative : Bool) (cs : List Char) : Except Cause (Value × List Char) :=
  let whole := wholeDigits cs
  if whole.isEmpty then .error .noValue
  else
    let (fraction, rest) := fractionOf (cs.drop whole.length)
    match fraction, exponent? rest with
    | [], none =>
      if Decimal.maxDigits < whole.length then .error (.tooLong whole.length)
      else
        let n : Int := Text.natOfDigits whole
        .ok (.int (if negative then -n else n), rest)
    | fraction, exponent =>
      let (e, rest) := exponent.getD (0, rest)
      let x := Decimal.nearestScaled (Text.natOfDigits (whole ++ fraction)) (e - fraction.length)
      .ok (.float (if negative then -x else x), rest)

/-! ## Documents -/

/-- Drops `word` where the text starts with it. -/
def stripWord? (word : String) (cs : List Char) : Option (List Char) :=
  if word.toList.isPrefixOf cs then some (cs.drop word.length) else none

/-- The words with a meaning of their own. -/
def words : List (String × Value) :=
  [("null", .null), ("true", .flag true), ("false", .flag false), ("NaN", .float (0.0 / 0.0)),
    ("Infinity", .float (1.0 / 0.0)), ("-Infinity", .float (-1.0 / 0.0))]

/-- A value that is neither a text nor a container. -/
def scalar (cs : List Char) : Result Value :=
  match words.findSome? fun (word, v) ↦ (stripWord? word cs).map fun rest ↦ (v, rest) with
  | some result => .ok result
  | none =>
    let result := match cs with
      | '-' :: rest => unsigned true rest
      | cs => unsigned false cs
    result.mapError fun cause ↦ ⟨cause, cs.length⟩

mutual

/-- One value; every level of nesting takes two units of `depth`, and every further item takes one. -/
def value : (depth : Nat) → List Char → Result Value
  | 0, cs => fail .noValue cs
  | depth + 1, cs =>
    match cs with
    | '"' :: rest => (textFrom cs.length rest).map fun (s, rest) ↦ (.text (String.ofList s), rest)
    | '[' :: rest =>
      match skipBlank rest with
      | ']' :: rest => .ok (.list [], rest)
      | rest => (items depth rest).map fun (vs, rest) ↦ (.list vs, rest)
    | '\x7b' :: rest =>
      match skipBlank rest with
      | '\x7d' :: rest => .ok (.map [], rest)
      | rest => (members depth rest).map fun (es, rest) ↦ (.map (Entries.ofList es), rest)
    | cs => scalar cs

/-- The items of a list up to its end. -/
def items : (depth : Nat) → List Char → Except Fault (List Value × List Char)
  | 0, cs => fail .noValue cs
  | depth + 1, cs => do
    let (v, rest) ← value depth cs
    match skipBlank rest with
    | ']' :: rest => .ok ([v], rest)
    | ',' :: rest =>
      let (vs, rest) ← items depth (skipBlank rest)
      .ok (v :: vs, rest)
    | rest => fail .noComma rest

/-- The members of an object up to its end. -/
def members : (depth : Nat) → List Char → Except Fault (List (Value × Value) × List Char)
  | 0, cs => fail .noValue cs
  | depth + 1, cs => do
    let (name, rest) ← match cs with
      | '"' :: rest => textFrom cs.length rest
      | cs => fail .noName cs
    let rest ← match skipBlank rest with
      | ':' :: rest => .ok (skipBlank rest)
      | rest => fail .noColon rest
    let (v, rest) ← value depth rest
    let entry := (.text (String.ofList name), v)
    match skipBlank rest with
    | '\x7d' :: rest => .ok ([entry], rest)
    | ',' :: rest =>
      let (es, rest) ← members depth (skipBlank rest)
      .ok (entry :: es, rest)
    | rest => fail .noComma rest

end

/-- A fault with its position in the text, counted from zero, its line and its column. -/
structure Error where
  cause : Cause
  position : Nat
  line : Nat
  column : Nat
deriving DecidableEq, Repr

/-- Where a fault lies in the text. -/
def Fault.locate (fault : Fault) (cs : List Char) : Error :=
  let before := cs.take (cs.length - fault.left)
  { cause := fault.cause
    position := before.length
    line := before.count '\n' + 1
    column := (before.reverse.takeWhile (· ≠ '\n')).length + 1 }

/-- Reads a whole text as one document. -/
def documentOf (cs : List Char) : Except Fault Value :=
  match cs with
  | '\uFEFF' :: _ => fail .byteOrderMark cs
  | cs =>
    match value (2 * cs.length + 2) (skipBlank cs) with
    | .error fault => .error fault
    | .ok (v, rest) =>
      match skipBlank rest with
      | [] => .ok v
      | rest => fail .moreData rest

def read (s : String) : Except Error Value :=
  (documentOf s.toList).mapError (·.locate s.toList)

def Cause.message : Cause → String
  | .byteOrderMark => "Unexpected UTF-8 BOM (decode using utf-8-sig)"
  | .noValue => "Expecting value"
  | .noName => "Expecting property name enclosed in double quotes"
  | .noColon => "Expecting ':' delimiter"
  | .noComma => "Expecting ',' delimiter"
  | .moreData => "Extra data"
  | .openText => "Unterminated string starting at"
  | .badEscape => "Invalid \\escape"
  | .badUnit => "Invalid \\uXXXX escape"
  | .control => "Invalid control character at"
  | .tooLong digits => Decimal.tooLongMessage digits

def Error.message (e : Error) : String :=
  match e.cause with
  | .tooLong _ => e.cause.message
  | cause =>
    cause.message ++ ": line " ++ toString e.line ++ " column " ++ toString e.column ++
      " (char " ++ toString e.position ++ ")"

end Testbed.Data.Json
