import Testbed.Data.Yaml.Fault

/-!
# Reading position

A position in a YAML stream: the characters that follow, and the line and column that they are on.
The end of the stream is the absence of a character; the predicates on characters that may be absent
say which of them count as an end.
-/

namespace Testbed.Data.Yaml

/-- The characters that end a line. -/
def isBreak (c : Char) : Bool :=
  c = '\n' || c = '\r' || c = '\x85' || c = '\u2028' || c = '\u2029'

/-- The end of the stream or of a line. -/
def endsLine : Option Char → Bool
  | none => true
  | some c => isBreak c

/-- The end of the stream, of a line, or a space. -/
def endsWord : Option Char → Bool
  | none => true
  | some c => isBreak c || c = ' '

/-- The end of the stream, of a line, a space or a tab. -/
def endsToken : Option Char → Bool
  | none => true
  | some c => isBreak c || c = ' ' || c = '\t'

structure Cursor where
  rest : List Char
  index : Nat := 0
  line : Nat := 0
  column : Nat := 0
deriving Repr

namespace Cursor

/-- The character at a distance. -/
def peek (c : Cursor) (distance : Nat := 0) : Option Char :=
  c.rest[distance]?

/-- Goes one character further.  A line feed after a carriage return belongs to it, and a byte-order
mark takes no column. -/
def next (c : Cursor) : Cursor :=
  match c.rest with
  | [] => c
  | ch :: rest =>
    let ends := isBreak ch && !(ch = '\r' && rest.head? = some '\n')
    { rest := rest
      index := c.index + 1
      line := if ends then c.line + 1 else c.line
      column := if ends then 0 else if ch = '\uFEFF' then c.column else c.column + 1 }

def skip (c : Cursor) : (count : Nat) → Cursor
  | 0 => c
  | count + 1 => c.next.skip count

/-- The characters as long as they satisfy a condition, and the position after them. -/
def span (c : Cursor) (p : Char → Bool) : List Char × Cursor :=
  let taken := c.rest.takeWhile p
  (taken, c.skip taken.length)

def skipWhile (c : Cursor) (p : Char → Bool) : Cursor :=
  (c.span p).2

def skipSpaces (c : Cursor) : Cursor :=
  c.skipWhile (· = ' ')

/-- Skips a comment, if there is one. -/
def skipComment (c : Cursor) : Cursor :=
  if c.peek = some '#' then c.skipWhile (!isBreak ·) else c

/-- Whether the characters that follow are those of a text. -/
def startsWith (c : Cursor) (text : String) : Bool :=
  text.toList.isPrefixOf c.rest

/-- Whether a line that separates documents starts here, column aside. -/
def atSeparator (c : Cursor) : Bool :=
  (c.startsWith "---" || c.startsWith "...") && endsToken (c.peek 3)

/-- The line break here, if there is one, as it is kept: a line feed unless it is one of the two
separators of Unicode. -/
def lineBreak? (c : Cursor) : Option (Char × Cursor) :=
  match c.peek with
  | none => none
  | some ch =>
    if ch = '\u2028' ∨ ch = '\u2029' then some (ch, c.next)
    else if isBreak ch then some ('\n', if c.startsWith "\r\n" then c.skip 2 else c.next)
    else none

end Cursor

end Testbed.Data.Yaml
