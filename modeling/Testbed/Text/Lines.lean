/-!
# Lines of a text

A text is divided at every character that Unicode counts as a line boundary; a carriage return
followed by a line feed is one boundary.  A boundary at the end of the text opens no further line.
-/

namespace Testbed.Text

/-- Line feed, vertical tab, form feed, carriage return, the separators of files, groups and
records, next line, and the line and paragraph separators. -/
def isLineBoundary (c : Char) : Bool :=
  let n := c.toNat
  (10 ≤ n && n ≤ 13) || (0x1C ≤ n && n ≤ 0x1E) || n == 0x85 || n == 0x2028 || n == 0x2029

/-- Continues the line `line`, which is kept in reverse. -/
def splitLinesFrom (line : List Char) : List Char → List (List Char)
  | [] => if line.isEmpty then [] else [line.reverse]
  | '\r' :: '\n' :: rest => line.reverse :: splitLinesFrom [] rest
  | c :: rest =>
    if isLineBoundary c then line.reverse :: splitLinesFrom [] rest
    else splitLinesFrom (c :: line) rest

/-- The lines of a text, without their boundaries. -/
def splitLines (s : String) : List String :=
  (splitLinesFrom [] s.toList).map String.ofList

/-- The last `n` elements, in order. -/
def lastOf {α : Type} (n : Nat) (xs : List α) : List α :=
  xs.drop (xs.length - n)

/-- Carriage returns, alone or before a line feed, become line feeds. -/
def normalizeNewlines : List Char → List Char
  | [] => []
  | '\r' :: '\n' :: rest => '\n' :: normalizeNewlines rest
  | c :: rest => (if c = '\r' then '\n' else c) :: normalizeNewlines rest

end Testbed.Text
