/-!
# Numerals

Numbers as text, in base ten and sixteen.

* `hex`, `hexUpper`: the shortest numeral, `padded` to a least width where a column needs it.
* `read base limit cs`: an unsigned numeral below `limit`.  One plus sign may stand in front and
  zeros do not count; the cause of the first failure from the left is reported.
-/

namespace MapScript.Numeral

/-! ## Writing -/

/-- Zeros in front, up to `width` characters. -/
def padded (width : Nat) (digits : List Char) : List Char :=
  List.replicate (width - digits.length) '0' ++ digits

def decimal (n : Nat) : String := String.ofList (Nat.toDigits 10 n)

def hex (n : Nat) : String := String.ofList (Nat.toDigits 16 n)

/-- At least `width` lower-case digits. -/
def hexPadded (width n : Nat) : String := String.ofList (padded width (Nat.toDigits 16 n))

/-- At least `width` upper-case digits. -/
def hexUpper (width n : Nat) : String :=
  String.ofList (padded width ((Nat.toDigits 16 n).map Char.toUpper))

/-! ## Reading -/

/-- Why a text is no numeral. -/
inductive Fault
  | empty
  | invalidDigit
  | tooLarge
deriving DecidableEq

def Fault.message : Fault → String
  | .empty => "cannot parse integer from empty string"
  | .invalidDigit => "invalid digit found in string"
  | .tooLarge => "number too large to fit in target type"

/-- The value of a digit of `base`, letters in either case. -/
def digit? (base : Nat) (c : Char) : Option Nat :=
  let value :=
    if '0' ≤ c ∧ c ≤ '9' then c.toNat - '0'.toNat
    else if 'a' ≤ c ∧ c ≤ 'f' then c.toNat - 'a'.toNat + 10
    else if 'A' ≤ c ∧ c ≤ 'F' then c.toNat - 'A'.toNat + 10
    else base
  if value < base then some value else none

/-- Reads on from the value `acc` of the digits before. -/
def readDigits (base limit : Nat) (acc : Nat) : List Char → Except Fault Nat
  | [] => .ok acc
  | c :: rest =>
    match digit? base c with
    | none => .error .invalidDigit
    | some d =>
      if acc * base + d < limit then readDigits base limit (acc * base + d) rest
      else .error .tooLarge

/-- Reads an unsigned numeral below `limit`. -/
def read (base limit : Nat) : List Char → Except Fault Nat
  | [] => .error .empty
  | ['+'] => .error .invalidDigit
  | '+' :: digits => readDigits base limit 0 digits
  | digits => readDigits base limit 0 digits

/-- Reads a 16-bit word. -/
def readWord (base : Nat) (cs : List Char) : Except Fault UInt16 :=
  (read base 0x10000 cs).map UInt16.ofNat

/-- Reads a 32-bit number. -/
def readLong (base : Nat) (cs : List Char) : Except Fault UInt32 :=
  (read base 0x100000000 cs).map UInt32.ofNat

/-- Digits alone, with no sign and no blank. -/
def isDigits (cs : List Char) : Bool := !cs.isEmpty && cs.all Char.isDigit

end MapScript.Numeral
