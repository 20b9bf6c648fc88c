import MapScript.Opcode

/-!
# Instructions

An opcode with its operand words.  The number of operands is not part of the type: code is checked
against `Instruction.wellFormed` where it is read and where it is written.
-/

namespace MapScript

structure Instruction where
  opcode : Opcode
  operands : List UInt16
deriving DecidableEq

namespace Instruction

def kind (i : Instruction) : Kind := i.opcode.kind

/-- Whether the operands are as many as the opcode takes. -/
def wellFormed (i : Instruction) : Bool := i.operands.length == i.opcode.arity

/-- The words taken; `CALL_FN_n` is always a single one. -/
def width (i : Instruction) : Nat :=
  match i.opcode with
  | .call _ => 1
  | .row _ => 1 + i.operands.length

/-- The offset that a jump goes to. -/
def target? (i : Instruction) : Option Nat :=
  if i.opcode.entry.isJump then i.operands.head?.map UInt16.toNat else none

/-- An operand is written with two digits, or four from `0x100` on. -/
def operandText (v : UInt16) : String :=
  Numeral.hexUpper (if v < 0x100 then 2 else 4) v.toNat

/-- The mnemonic and the operands. -/
def text (i : Instruction) : String :=
  i.operands.foldl (fun s v => s ++ " " ++ operandText v) i.opcode.mnemonic

theorem width_pos (i : Instruction) : 0 < i.width := by
  unfold width
  split <;> omega

end Instruction

/-! ## Placement -/

/-- The offset of each instruction when the first one stands at `base`. -/
def offsets (base : Nat) : List Instruction → List Nat
  | [] => []
  | i :: rest => base :: offsets (base + i.width) rest

/-- The offset behind the last instruction. -/
def codeEnd (base : Nat) : List Instruction → Nat
  | [] => base
  | i :: rest => codeEnd (base + i.width) rest

@[simp] theorem length_offsets (base : Nat) (code : List Instruction) :
    (offsets base code).length = code.length := by
  induction code generalizing base with
  | nil => rfl
  | cons i rest ih => simp [offsets, ih]

end MapScript
