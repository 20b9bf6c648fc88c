import MapScript.Text.Quoted

/-!
# Offsets from outside

Command lines and manifests give offsets in hexadecimal, with or without `0x` in front.
-/

namespace MapScript.Offset

/-- A text that is no offset, and why. -/
structure Error where
  text : String
  fault : Numeral.Fault
deriving DecidableEq

def Error.message (e : Error) : String :=
  Text.quoted e.text ++ " is not a hex offset: " ++ e.fault.message

/-- Reads an offset below `2 ^ 32`. -/
def parse (text : String) : Except Error Nat :=
  let digits :=
    match text.toList with
    | '0' :: 'x' :: digits | '0' :: 'X' :: digits => digits
    | digits => digits
  match Numeral.readLong 16 digits with
  | .ok v => .ok v.toNat
  | .error fault => .error ⟨text, fault⟩

end MapScript.Offset
