import Testbed.Text.Hex
import Testbed.Text.Printable

/-!
# Quoted text

How a text is shown inside a message.  It stands between single quotes, or between double quotes
when it holds a single quote and no double one.  The quote in use, the backslash and every
character that is not printable are escaped: tab, line feed and carriage return by a letter, the
others by the shortest of the three numeric forms.
-/

namespace Testbed.Text

/-- The quote around a text: the double one only where it saves an escape. -/
def quoteOf (cs : List Char) : Char :=
  if cs.contains '\'' && !cs.contains '"' then '"' else '\''

/-- One character of a quoted text. -/
def escape (quote c : Char) : List Char :=
  if c = quote ∨ c = '\\' then ['\\', c]
  else if c = '\t' then ['\\', 't']
  else if c = '\n' then ['\\', 'n']
  else if c = '\r' then ['\\', 'r']
  else if isPrintable c then [c]
  else if c.toNat < 0x100 then '\\' :: 'x' :: hex 2 c.toNat
  else if c.toNat < 0x10000 then '\\' :: 'u' :: hex 4 c.toNat
  else '\\' :: 'U' :: hex 8 c.toNat

def quoteChars (cs : List Char) : List Char :=
  let quote := quoteOf cs
  quote :: cs.flatMap (escape quote) ++ [quote]

/-- The text between its quotes. -/
def quoted (s : String) : String :=
  String.ofList (quoteChars s.toList)

/-- Several quoted texts as a bracketed list. -/
def quotedList (texts : List String) : String :=
  "[" ++ ", ".intercalate (texts.map quoted) ++ "]"

end Testbed.Text
