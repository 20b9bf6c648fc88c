import MapScript.Numeral
import MapScript.Opcode.Table

/-!
# Opcodes

An opcode is a row of the instruction table or `CALL_FN_n`, whose function number is part of its
code.  It can be found by

* its code (`ofCode?`) and its mnemonic (`ofMnemonic?`),
* the path that scripts call it by (`ofFunction?`),
* its kind (`ofKind?`): the first row of that kind, the only one unless the kind is `generic`.
-/

namespace MapScript

inductive Opcode
  | row (index : Fin table.length)
  | call (number : Fin callCount)
deriving DecidableEq

namespace Opcode

def entry : Opcode → Entry
  | row i => table.get i
  | call _ => callEntry

def code : Opcode → UInt16
  | row i => (table.get i).code
  | call n => callEntry.code + UInt16.ofNat n

def kind (op : Opcode) : Kind := op.entry.kind

def mnemonic : Opcode → String
  | row i => (table.get i).mnemonic
  | call n => callEntry.mnemonic ++ Numeral.decimal n

/-- Operand words behind the opcode. -/
def arity (op : Opcode) : Nat := op.entry.arity

/-- Words that an instruction with this opcode takes. -/
def width (op : Opcode) : Nat := 1 + op.arity

/-! ## Finding opcodes -/

/-- `CALL_FN_n`, if there is one. -/
def ofCall? (n : Nat) : Option Opcode :=
  if h : n < callCount then some (call ⟨n, h⟩) else none

def ofCode? (code : UInt16) : Option Opcode :=
  if callEntry.code ≤ code ∧ code.toNat < callEntry.code.toNat + callCount then
    ofCall? (code.toNat - callEntry.code.toNat)
  else (table.findFinIdx? (·.code == code)).map row

def ofMnemonic? (mnemonic : String) : Option Opcode :=
  match callEntry.mnemonic.toList.isPrefixOf? mnemonic.toList with
  | some digits =>
    if Numeral.isDigits digits then
      match Numeral.readWord 10 digits with
      | .ok n => ofCall? n.toNat
      | .error _ => none
    else none
  | none => (table.findFinIdx? (·.mnemonic == mnemonic)).map row

/-- The opcode that scripts write as `subsystem.name(...)`. -/
def ofFunction? (subsystem name : String) : Option Opcode := do
  let s ← Subsystem.ofName? subsystem
  let i ← table.findFinIdx? fun e => e.isCallable && e.subsystem == s && e.name == name
  return row i

/-- The first row of a kind. -/
def ofKind? (kind : Kind) : Option Opcode := (table.findFinIdx? (·.kind == kind)).map row

/-! ## Opcodes that code is built from -/

def goto : Opcode := (ofKind? .goto).get (by decide)

def gotoIfFalse : Opcode := (ofKind? .gotoIfFalse).get (by decide)

def ret : Opcode := (ofKind? .ret).get (by decide)

def write : Opcode := (ofKind? .write).get (by decide)

def math (op : MathOp) : Opcode := (ofKind? (.math op)).get (by cases op <;> decide)

def waitFrames : Opcode := (ofFunction? "System" "wait_frames").get (by decide)

def wait : Opcode := (ofFunction? "System" "wait").get (by decide)

end Opcode

end MapScript
