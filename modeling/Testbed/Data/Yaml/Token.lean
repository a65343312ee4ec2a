import Testbed.Data.Yaml.Lexeme

/-!
# Tokens of YAML

A stream of characters as indicators, names and scalars.  Indentation becomes tokens of its own, and
so does a key without an indicator: whether a token starts such a key is known only at the colon
after it, so the places at which a key may start are kept as pending until then.
-/

namespace Testbed.Data.Yaml

inductive Token where
  | directive (d : Directive)
  | documentStart
  | documentEnd
  | blockSequenceStart
  | blockMappingStart
  | blockEnd
  | flowSequenceStart
  | flowSequenceEnd
  | flowMappingStart
  | flowMappingEnd
  | blockEntry
  | flowEntry
  | key
  | value
  | aliasOf (name : List Char)
  | anchor (name : List Char)
  | tag (t : WrittenTag)
  | scalar (plain : Bool) (chars : List Char)
deriving DecidableEq

/-- The tokens of a stream.  If reading stops at a fault, these are the tokens that are certain
before it. -/
structure Tokens where
  certain : List Token
  fault : Option Fault

/-- A place at which a key may have started. -/
structure PendingKey where
  /-- The number of tokens before it. -/
  token : Nat
  /-- Only a key can be written there. -/
  required : Bool
  index : Nat
  line : Nat
  column : Nat

/-- A key has to end on its line and within this number of characters. -/
def keyLimit : Nat := 1024

/-- The tokens read so far and the context of those to come. -/
structure Scan where
  cursor : Cursor
  tokens : Array Token := #[]
  /-- The number of open brackets and braces; below zero after one that closes nothing. -/
  flowLevel : Int := 0
  /-- The column of the innermost block collection. -/
  indent : Int := -1
  /-- The columns of the collections around it. -/
  outer : List Int := []
  /-- A key may start here without an indicator. -/
  keyAllowed : Bool := true
  /-- By flow level, at most one for each. -/
  pending : List (Int × PendingKey) := []

namespace Scan

def inFlow (s : Scan) : Bool :=
  s.flowLevel ≠ 0

def push (s : Scan) (t : Token) : Scan :=
  { s with tokens := s.tokens.push t }

/-- Adds a token for so many characters. -/
def indicator (t : Token) (length : Nat) (s : Scan) : Scan :=
  { s.push t with cursor := s.cursor.skip length }

/-- States whether a key may start after this without an indicator. -/
def allowKey (s : Scan) (allowed : Bool) : Scan :=
  { s with keyAllowed := allowed }

def insert (s : Scan) (place : Nat) (t : Token) : Scan :=
  { s with tokens := s.tokens.insertIdxIfInBounds place t }

/-! ## Blanks and indentation -/

/-- Skips spaces, comments and line breaks.  After a line break outside of brackets a key may
start. -/
def skipBlanks : (fuel : Nat) → Scan → Scan
  | 0, s => s
  | fuel + 1, s =>
    let c := s.cursor.skipSpaces.skipComment
    match c.lineBreak? with
    | some (_, c) => skipBlanks fuel { s with cursor := c, keyAllowed := s.keyAllowed || !s.inFlow }
    | none => { s with cursor := c }

/-- Closes the innermost block collections as long as they are indented deeper than a column, the
columns around them being given. -/
def close (column : Int) : (outer : List Int) → Scan → Scan
  | [], s => s
  | outer :: rest, s =>
    if column < s.indent then
      close column rest { s.push .blockEnd with indent := outer, outer := rest }
    else s

/-- Closes the block collections that are indented deeper than a column. -/
def unwind (column : Int) (s : Scan) : Scan :=
  if s.inFlow then s else close column s.outer s

/-- Opens a block collection at a column unless there is one. -/
def opens (s : Scan) (column : Nat) : Bool :=
  s.indent < column

def deepen (s : Scan) (column : Nat) : Scan :=
  { s with indent := column, outer := s.indent :: s.outer }

/-- Opens a block collection here unless there is one. -/
def openHere (s : Scan) (start : Token) : Scan :=
  let column := s.cursor.column
  if s.opens column then (s.deepen column).push start else s

/-! ## Keys without an indicator -/

/-- Gives up the keys that are no longer possible. -/
def dropStaleKeys (s : Scan) : Except Fault Scan :=
  let stale (k : PendingKey) : Bool :=
    k.line ≠ s.cursor.line || keyLimit < s.cursor.index - k.index
  if s.pending.any fun (_, k) ↦ stale k && k.required then malformed
  else .ok { s with pending := s.pending.filter fun (_, k) ↦ !stale k }

def pendingHere? (s : Scan) : Option PendingKey :=
  s.pending.lookup s.flowLevel

def forgetKeyHere (s : Scan) : Scan :=
  { s with pending := s.pending.filter fun (level, _) ↦ level ≠ s.flowLevel }

/-- Gives up the key that may have started on this flow level. -/
def dropKeyHere (s : Scan) : Except Fault Scan :=
  match s.pendingHere? with
  | none => .ok s
  | some k => if k.required then malformed else .ok s.forgetKeyHere

/-- Notes that a key may start here, if it is allowed. -/
def markKey (s : Scan) : Except Fault Scan := do
  if s.keyAllowed then
    let s ← s.dropKeyHere
    let c := s.cursor
    let k : PendingKey :=
      { token := s.tokens.size
        required := !s.inFlow && s.indent = c.column
        index := c.index, line := c.line, column := c.column }
    .ok { s with pending := (s.flowLevel, k) :: s.pending }
  else .ok s

/-- Notes that a key may start here and that none may start after it. -/
def markOnlyKey (s : Scan) : Except Fault Scan := do
  .ok ((← s.markKey).allowKey false)

/-! ## Reading one token -/

/-- Ends everything that is open before a line that separates documents. -/
def endContent (s : Scan) : Except Fault Scan := do
  .ok ((← (s.unwind (-1)).dropKeyHere).allowKey false)

def flowStart (t : Token) (s : Scan) : Except Fault Scan := do
  let s ← s.markKey
  .ok (indicator t 1 { s with flowLevel := s.flowLevel + 1, keyAllowed := true })

def flowEnd (t : Token) (s : Scan) : Except Fault Scan := do
  let s ← s.dropKeyHere
  .ok (indicator t 1 { s with flowLevel := s.flowLevel - 1, keyAllowed := false })

def flowEntry (s : Scan) : Except Fault Scan := do
  .ok (indicator .flowEntry 1 (← (s.allowKey true).dropKeyHere))

def blockEntry (s : Scan) : Except Fault Scan := do
  if !s.inFlow && !s.keyAllowed then malformed
  else
    let s := if s.inFlow then s else s.openHere .blockSequenceStart
    .ok (indicator .blockEntry 1 (← (s.allowKey true).dropKeyHere))

def explicitKey (s : Scan) : Except Fault Scan := do
  if !s.inFlow && !s.keyAllowed then malformed
  else
    let s := if s.inFlow then s else s.openHere .blockMappingStart
    .ok (indicator .key 1 (← (s.allowKey !s.inFlow).dropKeyHere))

def value (s : Scan) : Except Fault Scan := do
  let s ← match s.pendingHere? with
    | some k =>
      let s := s.forgetKeyHere.insert k.token .key
      let s :=
        if !s.inFlow && s.opens k.column then
          (s.deepen k.column).insert k.token .blockMappingStart
        else s
      .ok (s.allowKey false)
    | none =>
      if s.inFlow then (s.allowKey false).dropKeyHere
      else if s.keyAllowed then (s.openHere .blockMappingStart).dropKeyHere
      else malformed
  .ok (indicator .value 1 s)

/-- Whether the next character starts a plain scalar. -/
def startsPlain (s : Scan) (ch : Char) : Bool :=
  let after := s.cursor.peek 1
  !(endsToken (some ch) || "-?:,[]\x7b\x7d#&*!|>'\"%@`".toList.contains ch) ||
    (!endsToken after && (ch = '-' || (!s.inFlow && (ch = '?' || ch = ':'))))

def plain (s : Scan) : Except Fault Scan := do
  let s ← s.markOnlyKey
  let (chars, broken, c) := plainScalar s.inFlow s.indent s.cursor
  .ok { s.push (.scalar true chars) with cursor := c, keyAllowed := broken }

/-- The token that a character starts. -/
def readToken (ch : Char) (s : Scan) : Except Fault Scan := do
  let c := s.cursor
  let ends := endsToken (c.peek 1)
  if c.column = 0 && ch = '%' then
    let s ← s.endContent
    let (d, c) ← directive s.cursor
    .ok { s.push (.directive d) with cursor := c }
  else if c.column = 0 && c.atSeparator then
    .ok (indicator (if ch = '-' then .documentStart else .documentEnd) 3 (← s.endContent))
  else if ch = '[' then s.flowStart .flowSequenceStart
  else if ch = '{' then s.flowStart .flowMappingStart
  else if ch = ']' then s.flowEnd .flowSequenceEnd
  else if ch = '}' then s.flowEnd .flowMappingEnd
  else if ch = ',' then s.flowEntry
  else if ch = '-' && ends then s.blockEntry
  else if ch = '?' && (s.inFlow || ends) then s.explicitKey
  else if ch = ':' && (s.inFlow || ends) then s.value
  else if ch = '*' || ch = '&' then
    let s ← s.markOnlyKey
    let (name, c) ← anchorName s.cursor
    .ok { s.push (if ch = '*' then .aliasOf name else .anchor name) with cursor := c }
  else if ch = '!' then
    let s ← s.markOnlyKey
    let (t, c) ← tag s.cursor
    .ok { s.push (.tag t) with cursor := c }
  else if (ch = '|' || ch = '>') && !s.inFlow then
    let s ← (s.allowKey true).dropKeyHere
    let (chars, c) ← blockScalar s.indent s.cursor
    .ok { s.push (.scalar false chars) with cursor := c }
  else if ch = '\'' || ch = '"' then
    let s ← s.markOnlyKey
    let (chars, c) ← quotedScalar s.cursor
    .ok { s.push (.scalar false chars) with cursor := c }
  else if s.startsPlain ch then s.plain
  else malformed

/-- The tokens that cannot change any more: those before the first key that is still pending. -/
def certain (s : Scan) : List Token :=
  let first := s.pending.foldl (fun n (_, k) ↦ min n k.token) s.tokens.size
  (s.tokens.take first).toList

/-- Reads tokens to the end of the stream. -/
def run : (fuel : Nat) → Scan → Tokens
  | 0, s => ⟨s.certain, some .malformed⟩
  | fuel + 1, s =>
    match (skipBlanks (s.cursor.rest.length + 1) s).dropStaleKeys with
    | .error f => ⟨s.certain, some f⟩
    | .ok s =>
      let s := s.unwind s.cursor.column
      match s.cursor.peek with
      | none => match s.endContent with
        | .error f => ⟨s.certain, some f⟩
        | .ok s => ⟨s.tokens.toList, none⟩
      | some ch => match s.readToken ch with
        | .error f => ⟨s.certain, some f⟩
        | .ok s => run fuel s

end Scan

/-- Whether a stream may hold a character. -/
def isStreamChar (c : Char) : Bool :=
  c = '\t' || c = '\n' || c = '\r' || (' ' ≤ c && c ≤ '~') || c = '\x85' ||
    ('\xa0' ≤ c && c ≠ '\uFFFE' && c ≠ '\uFFFF')

/-- The tokens of a stream.  A byte-order mark at its beginning is skipped. -/
def Tokens.ofChars (cs : List Char) : Tokens :=
  if cs.all isStreamChar then
    let c : Cursor := { rest := cs }
    Scan.run (cs.length + 1) { cursor := if cs.head? = some '\uFEFF' then c.next else c }
  else ⟨[], some .malformed⟩

end Testbed.Data.Yaml
