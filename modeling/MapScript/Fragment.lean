import MapScript.CodeItem
import MapScript.Stmt

/-!
# Fragments of code

A `Fragment` is the code written so far and the failure that ended it, if one did.  Fragments are
joined with `++`; nothing is written behind a failure.
-/

namespace MapScript

inductive LoweringError
  | unknownSymbol (text : String)
  | unknownFunction (path : String)
  | unsupportedOperator (symbol : String)
  /-- A bare name, or a call that leaves nothing on the stack. -/
  | notAValue (text : String)
  | discardedValue (path : String)
  | notAStatement (text : String)
  | argumentCount (path : String) (expected found : Nat)
  | expectedLiteral (text : String)
  | bitOutOfRange (bit : UInt32)
  | offsetOutOfRange (bank : Bank) (address : UInt32)
  | literalOutOfRange (value : UInt32)
deriving DecidableEq

def LoweringError.message : LoweringError → String
  | unknownSymbol text => "unknown symbol " ++ text
  | unknownFunction path => "unknown function " ++ path
  | unsupportedOperator symbol => "operator " ++ symbol ++ " has no opcode"
  | notAValue text => text ++ " does not produce a value"
  | discardedValue path => path ++ " produces a value and cannot be used as a statement"
  | notAStatement text => "expression statement must be a call, found " ++ text
  | argumentCount path expected found =>
    path ++ " expects " ++ Numeral.decimal expected ++ " arguments, got " ++
      Numeral.decimal found
  | expectedLiteral text => text ++ " requires a numeric literal argument"
  | bitOutOfRange bit => "bit index " ++ Numeral.decimal bit.toNat ++ " is outside 0..=7"
  | offsetOutOfRange bank address =>
    "address 0x" ++ Numeral.hex address.toNat ++ " is outside the " ++ bank.name ++ " bank"
  | literalOutOfRange value =>
    "literal " ++ Numeral.decimal value.toNat ++ " does not fit in a code word"

structure Fragment where
  code : List CodeItem
  failure : Option LoweringError
deriving DecidableEq

namespace Fragment

def empty : Fragment := ⟨[], none⟩

def emit (e : CodeItem) : Fragment := ⟨[e], none⟩

def fail (e : LoweringError) : Fragment := ⟨[], some e⟩

/-- Goes on with `b` unless `a` has failed. -/
def append (a b : Fragment) : Fragment :=
  match a.failure with
  | some _ => a
  | none => ⟨a.code ++ b.code, b.failure⟩

instance : Append Fragment := ⟨append⟩

@[simp] theorem empty_append (a : Fragment) : empty ++ a = a := rfl

@[simp] theorem append_empty (a : Fragment) : a ++ empty = a := by
  rcases a with ⟨code, _ | e⟩
  · exact congrArg (Fragment.mk · none) (List.append_nil code)
  · rfl

theorem append_assoc (a b c : Fragment) : a ++ b ++ c = a ++ (b ++ c) := by
  rcases a with ⟨code, _ | e⟩
  · rcases b with ⟨code', _ | e'⟩
    · exact congrArg (Fragment.mk · c.failure) (List.append_assoc code code' c.code)
    · rfl
  · rfl

@[simp] theorem fail_append (e : LoweringError) (a : Fragment) : fail e ++ a = fail e := rfl

/-- The code, if it is complete. -/
def toExcept (f : Fragment) : Except LoweringError (List CodeItem) :=
  match f.failure with
  | some e => .error e
  | none => .ok f.code

end Fragment

end MapScript
