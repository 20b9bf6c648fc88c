import MapScript.Opcode.Entry
import MapScript.Numeral

/-!
# Names for what has none

A number without a name of its own is written `unknown_` and the number.
-/

namespace MapScript.Symbol

def placeholder (digits : String) : String := "unknown_" ++ digits

/-- What follows `unknown_`. -/
def placeholderDigits? (name : String) : Option (List Char) :=
  "unknown_".toList.isPrefixOf? name.toList

/-- The number of a placeholder with decimal digits. -/
def decimalPlaceholder? (name : String) : Option UInt16 :=
  match placeholderDigits? name with
  | none => none
  | some digits =>
    if Numeral.isDigits digits then (Numeral.readWord 10 digits).toOption else none

end MapScript.Symbol
