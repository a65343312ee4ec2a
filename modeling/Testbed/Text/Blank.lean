/-!
# Blank characters

White space as Unicode sees it, used wherever blanks around a name, a duration or a number are
ignored.  The set is fixed by code point: it holds the information separators and the line and
paragraph separators, and leaves out the zero-width space and the byte-order mark.
-/

namespace Testbed.Text

/-- Horizontal and vertical blanks, with every separator of the Unicode space categories. -/
def isBlank (c : Char) : Bool :=
  let n := c.toNat
  (9 ≤ n && n ≤ 13) || (28 ≤ n && n ≤ 32) || n == 0x85 || n == 0xA0 || n == 0x1680 ||
    (0x2000 ≤ n && n ≤ 0x200A) || n == 0x2028 || n == 0x2029 || n == 0x202F || n == 0x205F ||
    n == 0x3000

/-- The characters from the first to the last that is not blank. -/
def trim (cs : List Char) (blank : Char → Bool := isBlank) : List Char :=
  ((cs.dropWhile blank).reverse.dropWhile blank).reverse

/-- White space proper: the blanks without the information separators. -/
def isWhite (c : Char) : Bool :=
  isBlank c && !(28 ≤ c.toNat && c.toNat ≤ 31)

/-- Whether nothing but blanks is left. -/
def isBlankText (s : String) : Bool :=
  s.toList.all isBlank

theorem isBlankText_iff {s : String} : isBlankText s = true ↔ ∀ c ∈ s.toList, isBlank c = true := by
  simp [isBlankText]

end Testbed.Text
