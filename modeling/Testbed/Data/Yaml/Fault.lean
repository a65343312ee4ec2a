import Testbed.Decimal.Numeral
import Testbed.Text.Quoted

/-!
# Faults of YAML

A stream is refused as a whole if it is not written correctly.  Some scalars are written correctly
but have no value, such as an impossible date; their faults say what is wrong with them.
-/

namespace Testbed.Data.Yaml

/-- Why a stream is not read. -/
inductive Fault where
  | malformed
  | badCodePoint
  | badInteger (base : Nat) (text : String)
  | longInteger (digits : Nat)
  | badFloat (text : String)
  | badFlag (word : String)
  | emptyNumber
  | noTimestamp
  | badDate (reason : String)
deriving DecidableEq, Repr

/-- The number of characters of a scalar that are shown as no integer. -/
def shownLength : Nat := 200

def Fault.message : Fault → String
  | .malformed => "malformed"
  | .badCodePoint => "chr() arg not in range(0x110000)"
  | .badInteger base text =>
    "invalid literal for int() with base " ++ toString base ++ ": " ++
      String.ofList ((Text.quoted text).toList.take shownLength)
  | .longInteger digits => Decimal.tooLongMessage digits
  | .badFloat text => "could not convert string to float: " ++ Text.quoted text
  | .badFlag word => Text.quoted word
  | .emptyNumber => "string index out of range"
  | .noTimestamp => "'NoneType' object has no attribute 'groupdict'"
  | .badDate reason => reason

end Testbed.Data.Yaml
