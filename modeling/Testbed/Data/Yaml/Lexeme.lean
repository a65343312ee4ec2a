import Testbed.Data.Yaml.Cursor
import Testbed.Text.Digit
import Testbed.Text.Hex
import Testbed.Text.Utf8

/-!
# Lexemes of YAML

The parts of a stream that are read by rules of their own: directives, anchors, tags, and the three
forms of scalars.  Every reader starts at the first character of its lexeme and gives what it means
with the position after it.
-/

namespace Testbed.Data.Yaml

def malformed {α : Type} : Except Fault α :=
  .error .malformed

def isAsciiWord (c : Char) : Bool :=
  c.isAlphanum || c = '-' || c = '_'

/-! ## Line breaks -/

/-- Line breaks with the spaces around them, up to a document separator; tells whether there is a
separator.  At most `fuel` characters are read. -/
def breaksFrom : (fuel : Nat) → Cursor → List Char × Bool × Cursor
  | 0, c => ([], false, c)
  | fuel + 1, c =>
    if c.peek = some ' ' then breaksFrom fuel c.next
    else match c.lineBreak? with
      | none => ([], false, c)
      | some (ch, c) =>
        if c.atSeparator then ([ch], true, c)
        else
          let (rest, separated, c) := breaksFrom fuel c
          (ch :: rest, separated, c)

/-- Folds a first line break with those that follow it: one alone becomes a space, and a first one
that is a line feed is dropped before others. -/
def fold (first : Char) (others : List Char) : List Char :=
  if first ≠ '\n' then first :: others else if others.isEmpty then [' '] else others

/-! ## Directives, anchors and tags -/

inductive Directive where
  | version (major : Nat)
  | handle (handle tagStart : List Char)
  | other
deriving DecidableEq

def isUriChar (c : Char) : Bool :=
  c.isAlphanum || "-;/?:@&=+$,_.!~*'()[]%".toList.contains c

/-- Escaped bytes, of which there are at most `fuel`. -/
def escapedBytes : (fuel : Nat) → Cursor → Except Fault (List UInt8 × Cursor)
  | 0, c => .ok ([], c)
  | fuel + 1, c =>
    if c.peek = some '%' then
      match c.rest with
      | _ :: a :: b :: _ =>
        match Text.natOfHex? [a, b] with
        | some n => do
          let (bytes, c) ← escapedBytes fuel (c.skip 3)
          .ok (UInt8.ofNat n :: bytes, c)
        | none => malformed
      | _ => malformed
    else .ok ([], c)

/-- The characters of a tag, with escapes resolved. -/
def uriChars : (fuel : Nat) → Cursor → Except Fault (List Char × Cursor)
  | 0, c => .ok ([], c)
  | fuel + 1, c =>
    match c.peek with
    | none => .ok ([], c)
    | some ch =>
      if ch = '%' then do
        let (bytes, c) ← escapedBytes (c.rest.length) c
        match Text.decode? bytes with
        | none => malformed
        | some s =>
          let (rest, c) ← uriChars fuel c
          .ok (s.toList ++ rest, c)
      else if isUriChar ch then do
        let (rest, c) ← uriChars fuel c.next
        .ok (ch :: rest, c)
      else .ok ([], c)

/-- The characters of a tag, of which there is at least one. -/
def uri (c : Cursor) : Except Fault (List Char × Cursor) := do
  let (chars, after) ← uriChars (c.rest.length + 1) c
  if after.index = c.index then malformed else .ok (chars, after)

/-- A tag handle: an exclamation mark alone, or a word between two of them. -/
def tagHandle (c : Cursor) : Except Fault (List Char × Cursor) :=
  if c.peek ≠ some '!' then malformed
  else
    let (word, after) := c.next.span isAsciiWord
    if c.peek 1 = some ' ' then .ok (['!'], c.next)
    else if after.peek = some '!' then .ok ('!' :: word ++ ['!'], after.next)
    else malformed

/-- Digits, of which there is at least one. -/
def number (c : Cursor) : Except Fault (Nat × Cursor) :=
  let (ds, after) := c.span Char.isDigit
  if ds.isEmpty then malformed else .ok (Text.natOfDigits ds, after)

def versionDirective (c : Cursor) : Except Fault (Directive × Cursor) := do
  let (major, c) ← number c.skipSpaces
  if c.peek ≠ some '.' then malformed
  else
    let (_, c) ← number c.next
    if endsWord c.peek then .ok (.version major, c) else malformed

def handleDirective (c : Cursor) : Except Fault (Directive × Cursor) := do
  let (handle, c) ← tagHandle c.skipSpaces
  if c.peek ≠ some ' ' then malformed
  else
    let (tagStart, c) ← uri c.skipSpaces
    if endsWord c.peek then .ok (.handle handle tagStart, c) else malformed

/-- The rest of a line that may hold a comment and nothing else. -/
def ignoredLine (c : Cursor) : Except Fault Cursor :=
  let c := c.skipSpaces.skipComment
  if endsLine c.peek then
    .ok (match c.lineBreak? with
      | some (_, c) => c
      | none => c)
  else malformed

/-- A directive, which starts with a percent sign. -/
def directive (c : Cursor) : Except Fault (Directive × Cursor) := do
  let (name, c) := c.next.span isAsciiWord
  if name.isEmpty || !endsWord c.peek then malformed
  else
    let (d, c) ←
      if name = "YAML".toList then versionDirective c
      else if name = "TAG".toList then handleDirective c
      else .ok (.other, c.skipWhile (!isBreak ·))
    .ok (d, ← ignoredLine c)

/-- The name of an anchor or an alias, which starts with an indicator. -/
def anchorName (c : Cursor) : Except Fault (List Char × Cursor) :=
  let (name, c) := c.next.span isAsciiWord
  let ends := endsToken c.peek || c.peek.any ("?:,]\x7d%@`".toList.contains ·)
  if name.isEmpty || !ends then malformed else .ok (name, c)

/-- A tag as it is written: a handle, which may be missing, and a suffix. -/
structure WrittenTag where
  handle : Option (List Char)
  suffix : List Char
deriving DecidableEq

def tag (c : Cursor) : Except Fault (WrittenTag × Cursor) := do
  let (t, c) ←
    if c.peek 1 = some '<' then do
      let (suffix, c) ← uri (c.skip 2)
      if c.peek = some '>' then .ok (⟨none, suffix⟩, c.next) else malformed
    else if endsToken (c.peek 1) then .ok (⟨none, ['!']⟩, c.next)
    else
      let word := c.rest.tail.takeWhile fun ch ↦ !endsWord (some ch)
      let (handle, c) ← if word.contains '!' then tagHandle c else .ok (['!'], c.next)
      let (suffix, c) ← uri c
      .ok (⟨some handle, suffix⟩, c)
  if endsWord c.peek then .ok (t, c) else malformed

/-! ## Quoted scalars -/

/-- Blanks and line breaks within quotes, without their first break. -/
def quotedBreaks : (fuel : Nat) → Cursor → Except Fault (List Char × Cursor)
  | 0, c => .ok ([], c)
  | fuel + 1, c =>
    if c.atSeparator then malformed
    else
      let c := c.skipWhile fun ch ↦ ch = ' ' || ch = '\t'
      match c.lineBreak? with
      | none => .ok ([], c)
      | some (ch, c) => do
        let (rest, c) ← quotedBreaks fuel c
        .ok (ch :: rest, c)

/-- Blanks within quotes, which may include line breaks. -/
def quotedBlanks (c : Cursor) : Except Fault (List Char × Cursor) :=
  let (blanks, c) := c.span fun ch ↦ ch = ' ' || ch = '\t'
  match c.peek, c.lineBreak? with
  | none, _ => malformed
  | some _, none => .ok (blanks, c)
  | some _, some (first, c) => do
    let (others, c) ← quotedBreaks (c.rest.length + 1) c
    .ok (fold first others, c)

/-- The escapes of one letter. -/
def escapes : List (Char × Char) :=
  [('0', '\x00'), ('a', '\x07'), ('b', '\x08'), ('t', '\t'), ('\t', '\t'), ('n', '\n'),
    ('v', '\x0b'), ('f', '\x0c'), ('r', '\r'), ('e', '\x1b'), (' ', ' '), ('"', '"'),
    ('\\', '\\'), ('/', '/'), ('N', '\x85'), ('_', '\xa0'), ('L', '\u2028'), ('P', '\u2029')]

/-- The number of digits of a numeric escape. -/
def escapeWidth? : Char → Option Nat
  | 'x' => some 2
  | 'u' => some 4
  | 'U' => some 8
  | _ => none

/-- An escape within double quotes, which starts with a backslash. -/
def quotedEscape (c : Cursor) : Except Fault (List Char × Cursor) :=
  let c := c.next
  match c.peek with
  | none => malformed
  | some ch =>
    match escapes.lookup ch, escapeWidth? ch with
    | some meant, _ => .ok ([meant], c.next)
    | none, some width =>
      let ds := c.rest.tail.take width
      match Text.natOfHex? ds with
      | some n =>
        if ds.length < width then malformed
        else if 0x10FFFF < n then .error .badCodePoint
        else
          let meant := if n.isValidChar then Char.ofNat n else Text.replacement
          .ok ([meant], c.skip (width + 1))
      | none => malformed
    | none, none =>
      match c.lineBreak? with
      | some (_, c) => quotedBreaks (c.rest.length + 1) c
      | none => malformed

/-- A quoted scalar up to its closing quote. -/
def quotedFrom (double : Bool) : (fuel : Nat) → Cursor → Except Fault (List Char × Cursor)
  | 0, _ => malformed
  | fuel + 1, c =>
    match c.peek with
    | none => malformed
    | some ch =>
      if ch = '\'' ∧ !double ∧ c.peek 1 = some '\'' then do
        let (rest, c) ← quotedFrom double fuel (c.skip 2)
        .ok ('\'' :: rest, c)
      else if ch = (if double then '"' else '\'') then .ok ([], c.next)
      else do
        let (chars, c) ←
          if double ∧ ch = '\\' then quotedEscape c
          else if endsToken (some ch) then quotedBlanks c
          else .ok ([ch], c.next)
        let (rest, c) ← quotedFrom double fuel c
        .ok (chars ++ rest, c)

/-- A quoted scalar, which starts with its quote. -/
def quotedScalar (c : Cursor) : Except Fault (List Char × Cursor) :=
  quotedFrom (c.peek = some '"') (c.rest.length + 1) c.next

/-! ## Plain scalars -/

/-- Whether a plain scalar goes on with a character, given the one after it. -/
def isPlain (flow : Bool) (ch : Char) (after : Option Char) : Bool :=
  !endsToken (some ch) &&
    !(ch = ':' && (endsToken after || (flow && after.any (",[]\x7b\x7d".toList.contains ·)))) &&
    !(flow && ",?[]\x7b\x7d".toList.contains ch)

/-- The characters of a plain scalar up to the next blank. -/
def plainWord (flow : Bool) : List Char → List Char
  | [] => []
  | ch :: rest => if isPlain flow ch rest.head? then ch :: plainWord flow rest else []

/-- The blanks within a plain scalar. -/
structure PlainBlanks where
  chars : List Char
  /-- There was a line break. -/
  broken : Bool

/-- The blanks after a word of a plain scalar; none if a document separator follows. -/
def plainBlanks (c : Cursor) : PlainBlanks × Cursor :=
  let (spaces, c) := c.span (· = ' ')
  match c.lineBreak? with
  | none => (⟨spaces, false⟩, c)
  | some (first, c) =>
    if c.atSeparator then (⟨[], true⟩, c)
    else
      match breaksFrom (c.rest.length + 1) c with
      | (_, true, c) => (⟨[], true⟩, c)
      | (others, false, c) => (⟨fold first others, true⟩, c)

/-- The words of a plain scalar; `broken` tells whether a line break was read. -/
def plainFrom (flow : Bool) (indent : Int) :
    (fuel : Nat) → Cursor → List Char × Bool × Cursor
  | 0, c => ([], false, c)
  | fuel + 1, c =>
    let word := if c.peek = some '#' then [] else plainWord flow c.rest
    if word.isEmpty then ([], false, c)
    else
      let (blanks, after) := plainBlanks (c.skip word.length)
      if blanks.chars.isEmpty || after.peek = some '#' || (!flow && after.column < indent) then
        (word, blanks.broken, after)
      else
        match plainFrom flow indent fuel after with
        | ([], _, _) => (word, blanks.broken, after)
        | (rest, broken, last) => (word ++ blanks.chars ++ rest, broken, last)

/-- A plain scalar inside of a collection of the given indentation; tells whether it ends after a
line break. -/
def plainScalar (flow : Bool) (indent : Int) (c : Cursor) : List Char × Bool × Cursor :=
  plainFrom flow (indent + 1) (c.rest.length + 1) c

/-! ## Block scalars -/

/-- What happens to the line breaks at the end of a block scalar. -/
inductive Chomping where
  | strip
  | clip
  | keep
deriving DecidableEq

def chomping? : Option Char → Option Chomping
  | some '+' => some .keep
  | some '-' => some .strip
  | _ => none

def increment? : Option Char → Option Nat
  | some ch => if ch.isDigit then some (Text.digitValue ch) else none
  | none => none

/-- The indicators after the first character of a block scalar, in either order. -/
def blockIndicators (c : Cursor) : Except Fault ((Chomping × Option Nat) × Cursor) :=
  let (chomping, increment, c) := match chomping? c.peek, increment? c.peek with
    | some chomping, _ => match increment? (c.peek 1) with
      | some n => (some chomping, some n, c.skip 2)
      | none => (some chomping, none, c.next)
    | none, some n => match chomping? (c.peek 1) with
      | some chomping => (some chomping, some n, c.skip 2)
      | none => (none, some n, c.next)
    | none, none => (none, none, c)
  if increment = some 0 || !endsWord c.peek then malformed
  else .ok ((chomping.getD .clip, increment), c)

/-- The line breaks at the start of a block scalar and the deepest indentation among them. -/
def blockIndentation : (fuel : Nat) → (deepest : Nat) → Cursor → List Char × Nat × Cursor
  | 0, deepest, c => ([], deepest, c)
  | fuel + 1, deepest, c =>
    if c.peek = some ' ' then blockIndentation fuel (max deepest c.next.column) c.next
    else match c.lineBreak? with
      | none => ([], deepest, c)
      | some (ch, c) =>
        let (rest, deepest, c) := blockIndentation fuel deepest c
        (ch :: rest, deepest, c)

/-- Skips spaces up to a column. -/
def skipIndent (indent : Nat) : (fuel : Nat) → Cursor → Cursor
  | 0, c => c
  | fuel + 1, c =>
    if c.column < indent ∧ c.peek = some ' ' then skipIndent indent fuel c.next else c

/-- The line breaks between two lines of a block scalar. -/
def blockBreaks (indent : Nat) : (fuel : Nat) → Cursor → List Char × Cursor
  | 0, c => ([], c)
  | fuel + 1, c =>
    let c := skipIndent indent indent c
    match c.lineBreak? with
    | none => ([], c)
    | some (ch, c) =>
      let (rest, c) := blockBreaks indent fuel c
      (ch :: rest, c)

def isBlankAt (c : Cursor) : Bool :=
  c.peek = some ' ' || c.peek = some '\t'

/-- The last line break of a block scalar, if it has one, and the breaks after it. -/
def chomp (chomping : Chomping) (last : Option Char) (breaks : List Char) : List Char :=
  match chomping with
  | .strip => []
  | .clip => last.toList
  | .keep => last.toList ++ breaks

/-- The lines of a block scalar; `breaks` precede the first of them. -/
def blockLines (folded : Bool) (chomping : Chomping) (indent : Nat) :
    (fuel : Nat) → (last : Option Char) → (breaks : List Char) → Cursor → List Char × Cursor
  | 0, _, _, c => ([], c)
  | fuel + 1, last, breaks, c =>
    if c.column ≠ indent || c.peek.isNone then (chomp chomping last breaks, c)
    else
      let (line, after) := c.span (!isBreak ·)
      let (ended, after) := match after.lineBreak? with
        | some (ch, after) => (some ch, after)
        | none => (none, after)
      let (others, after) := blockBreaks indent (after.rest.length + 1) after
      let goesOn := after.column = indent && after.peek.isSome
      let joined : List Char :=
        if !goesOn then []
        else if folded && ended = some '\n' && !isBlankAt c && !isBlankAt after then
          if others.isEmpty then [' '] else []
        else ended.toList
      if goesOn then
        let (rest, last) := blockLines folded chomping indent fuel ended others after
        (breaks ++ line ++ joined ++ rest, last)
      else (breaks ++ line ++ chomp chomping ended others, after)

/-- A block scalar inside of a collection of the given indentation. -/
def blockScalar (indent : Int) (c : Cursor) : Except Fault (List Char × Cursor) := do
  let folded := c.peek = some '>'
  let ((chomping, increment), c) ← blockIndicators c.next
  let c ← ignoredLine c
  let least := max (indent + 1) 1 |>.toNat
  let fuel := c.rest.length + 1
  match increment with
  | none =>
    let (breaks, deepest, c) := blockIndentation fuel 0 c
    .ok (blockLines folded chomping (max least deepest) fuel none breaks c)
  | some n =>
    let column := least + n - 1
    let (breaks, c) := blockBreaks column fuel c
    .ok (blockLines folded chomping column fuel none breaks c)

end Testbed.Data.Yaml
