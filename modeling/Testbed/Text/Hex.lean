/-!
# Hexadecimal digits

Lower-case hexadecimal numerals of a fixed width, as the escapes of quoted text use them.
-/

namespace Testbed.Text

def hexDigit (d : Nat) : Char :=
  if d < 10 then Char.ofNat (48 + d) else Char.ofNat (87 + d)

/-- The `width` lowest hexadecimal digits of `n`, most significant first. -/
def hex : (width : Nat) → (n : Nat) → List Char
  | 0, _ => []
  | width + 1, n => hex width (n / 16) ++ [hexDigit (n % 16)]

/-- The value of a hexadecimal digit of either case. -/
def hexValue? (c : Char) : Option Nat :=
  let n := c.toNat
  if 48 ≤ n ∧ n ≤ 57 then some (n - 48)
  else if 97 ≤ n ∧ n ≤ 102 then some (n - 87)
  else if 65 ≤ n ∧ n ≤ 70 then some (n - 55)
  else none

/-- The number that hexadecimal digits write, if they all are such digits. -/
def natOfHex? (cs : List Char) : Option Nat :=
  cs.foldlM (fun n c ↦ (hexValue? c).map (16 * n + ·)) 0

end Testbed.Text
