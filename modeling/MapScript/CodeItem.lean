import MapScript.Instruction

/-!
# Code with labels

What a script turns into before offsets are known: instructions whose operands may be labels, and
the labels themselves, which take no room.
-/

namespace MapScript

inductive Operand
  | value (v : UInt16)
  | label (name : String)
deriving DecidableEq

inductive CodeItem
  | insn (opcode : Opcode) (operands : List Operand)
  /-- Names the offset of the next instruction. -/
  | label (name : String)
deriving DecidableEq

namespace CodeItem

/-- An instruction without operands. -/
def bare (opcode : Opcode) : CodeItem := insn opcode []

def ofInstruction (i : Instruction) : CodeItem := insn i.opcode (i.operands.map .value)

/-- The words taken, which the opcode alone decides. -/
def width : CodeItem → Nat
  | insn opcode _ => opcode.width
  | label _ => 0

end CodeItem

end MapScript
