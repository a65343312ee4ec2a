import Testbed.Text.Hex

/-!
# UTF-8

Reading a text from its bytes.  A character is a lead byte followed by as many continuation bytes
as the lead asks for, the first of which may be narrowed further so that every code point has one
encoding and no surrogate has any.  The lenient reading replaces each maximal invalid part, that
is a lead with the continuation bytes that could still follow it, or a lone byte, by one U+FFFD.
-/

namespace Testbed.Text

/-- What a lead byte asks for: the number of continuation bytes, its own bits, and the bounds of the
first continuation byte. -/
structure Lead where
  count : Nat
  bits : Nat
  low : Nat := 0x80
  high : Nat := 0xBF
deriving Repr, DecidableEq

/-- The lead bytes of characters outside ASCII. -/
def lead? (b : Nat) : Option Lead :=
  if 0xC2 ≤ b ∧ b ≤ 0xDF then some { count := 1, bits := b - 0xC0 }
  else if b = 0xE0 then some { count := 2, bits := 0, low := 0xA0 }
  else if b = 0xED then some { count := 2, bits := 0xD, high := 0x9F }
  else if 0xE1 ≤ b ∧ b ≤ 0xEF then some { count := 2, bits := b - 0xE0 }
  else if b = 0xF0 then some { count := 3, bits := 0, low := 0x90 }
  else if 0xF1 ≤ b ∧ b ≤ 0xF3 then some { count := 3, bits := b - 0xF0 }
  else if b = 0xF4 then some { count := 3, bits := 4, high := 0x8F }
  else none

/-- The continuation bytes of a character as far as they are valid: the bits read, the number of
bytes still missing, and the bytes that follow. -/
def continuation (count bits low high : Nat) (bytes : List UInt8) : Nat × Nat × List UInt8 :=
  match count, bytes with
  | count + 1, b :: rest =>
    if low ≤ b.toNat ∧ b.toNat ≤ high then
      continuation count (bits * 64 + (b.toNat - 0x80)) 0x80 0xBF rest
    else (bits, count + 1, b :: rest)
  | count, bytes => (bits, count, bytes)

theorem length_continuation_le (count bits low high : Nat) (bytes : List UInt8) :
    (continuation count bits low high bytes).2.2.length ≤ bytes.length := by
  induction bytes generalizing count bits low high with
  | nil => cases count <;> simp [continuation]
  | cons b rest ih =>
    cases count with
    | zero => simp [continuation]
    | succ count =>
      simp only [continuation]
      split
      · exact Nat.le_succ_of_le (ih ..)
      · simp

/-- The first character of a byte sequence, `none` where its first part is invalid, and the rest. -/
def decodeOne (b : UInt8) (rest : List UInt8) : Option Char × List UInt8 :=
  if b.toNat < 0x80 then (some (Char.ofNat b.toNat), rest)
  else match lead? b.toNat with
    | none => (none, rest)
    | some lead =>
      match continuation lead.count lead.bits lead.low lead.high rest with
      | (bits, 0, rest) => (some (Char.ofNat bits), rest)
      | (_, _ + 1, rest) => (none, rest)

theorem length_decodeOne_le (b : UInt8) (rest : List UInt8) :
    (decodeOne b rest).2.length ≤ rest.length := by
  unfold decodeOne
  split
  · simp
  · split
    · simp
    · rename_i lead _
      have h := length_continuation_le lead.count lead.bits lead.low lead.high rest
      split <;> rename_i heq <;> simpa [heq] using h

/-- The characters of a byte sequence, `none` for each invalid part. -/
def decodeParts : List UInt8 → List (Option Char)
  | [] => []
  | b :: rest => (decodeOne b rest).1 :: decodeParts (decodeOne b rest).2
termination_by bytes => bytes.length
decreasing_by
  have := length_decodeOne_le b rest
  simp only [List.length_cons]
  omega

def replacement : Char := Char.ofNat 0xFFFD

/-- The lenient reading. -/
def decodeLossy (bytes : List UInt8) : String :=
  String.ofList ((decodeParts bytes).map (·.getD replacement))

/-! ## The first invalid part -/

/-- Why a part is invalid. -/
inductive Flaw where
  | noStart
  | noContinuation
  | cutOff
deriving DecidableEq, Repr

def Flaw.message : Flaw → String
  | .noStart => "invalid start byte"
  | .noContinuation => "invalid continuation byte"
  | .cutOff => "unexpected end of data"

/-- An invalid part of a byte sequence. -/
structure Invalid where
  position : Nat
  length : Nat
  first : UInt8
  flaw : Flaw
deriving DecidableEq, Repr

def Invalid.message (i : Invalid) : String :=
  "'utf-8' codec can't decode " ++
    (if i.length = 1 then
      "byte 0x" ++ String.ofList (hex 2 i.first.toNat) ++ " in position " ++ toString i.position
    else
      "bytes in position " ++ toString i.position ++ "-" ++
        toString (i.position + i.length - 1)) ++ ": " ++ i.flaw.message

/-- The flaw of a part that starts with a byte and leaves the given rest behind it. -/
def flawOf (b : UInt8) (rest : List UInt8) : Flaw :=
  if (lead? b.toNat).isNone then .noStart else if rest.isEmpty then .cutOff else .noContinuation

/-- The first invalid part, `position` bytes having been read before. -/
def firstInvalid? (position : Nat) : List UInt8 → Option Invalid
  | [] => none
  | b :: rest =>
    let after := (decodeOne b rest).2
    let length := 1 + rest.length - after.length
    if (decodeOne b rest).1.isNone then
      some { position := position, length := length, first := b, flaw := flawOf b after }
    else firstInvalid? (position + length) after
termination_by bytes => bytes.length
decreasing_by
  have := length_decodeOne_le b rest
  simp only [List.length_cons]
  omega

/-- The strict reading with the first invalid part as its error. -/
def decode (bytes : List UInt8) : Except Invalid String :=
  match firstInvalid? 0 bytes with
  | some i => .error i
  | none => .ok (decodeLossy bytes)

/-- The strict reading: `none` as soon as a part is invalid. -/
def decode? (bytes : List UInt8) : Option String :=
  (decode bytes).toOption

/-- The bytes of a text. -/
def encode (s : String) : List UInt8 :=
  s.toUTF8.toList

end Testbed.Text
