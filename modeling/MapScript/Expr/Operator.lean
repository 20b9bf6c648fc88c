import MapScript.Opcode.Entry

/-!
# Operators

The operators of scripts, how tightly they bind, and the machine operation behind each.  `/` and
`!=` can be written but have no opcode; every machine operation has an operator
(`Operator.ofMath`).
-/

namespace MapScript

inductive BinaryOp
  | add
  | sub
  | mul
  | div
  | lt
  | gt
  | le
  | ge
  | eq
  | ne
  | bitAnd
  | bitOr
  | shl
  | shr
  | and
  | or
deriving DecidableEq

namespace BinaryOp

def all : List BinaryOp :=
  [add, sub, mul, div, lt, gt, le, ge, eq, ne, bitAnd, bitOr, shl, shr, and, or]

def symbol : BinaryOp → String
  | add => "+"
  | sub => "-"
  | mul => "*"
  | div => "/"
  | lt => "<"
  | gt => ">"
  | le => "<="
  | ge => ">="
  | eq => "=="
  | ne => "!="
  | bitAnd => "&"
  | bitOr => "|"
  | shl => "<<"
  | shr => ">>"
  | and => "and"
  | or => "or"

/-- The operator of higher precedence binds tighter; all associate to the left. -/
def precedence : BinaryOp → Nat
  | or => 1
  | and => 2
  | lt | gt | le | ge | eq | ne => 3
  | bitOr => 4
  | bitAnd => 5
  | shl | shr => 6
  | add | sub => 7
  | mul | div => 8

/-- The operation that computes it, if the machine has one. -/
def math? : BinaryOp → Option MathOp
  | add => some .add
  | sub => some .sub
  | mul => some .mul
  | div => none
  | lt => some .lt
  | gt => some .gt
  | le => some .le
  | ge => some .ge
  | eq => some .eq
  | ne => none
  | bitAnd => some .and
  | bitOr => some .or
  | shl => some .shl
  | shr => some .shr
  | and => some .logicalAnd
  | or => some .logicalOr

end BinaryOp

inductive UnaryOp
  | neg
  | not
deriving DecidableEq

namespace UnaryOp

def symbol : UnaryOp → String
  | neg => "-"
  | not => "!"

def math : UnaryOp → MathOp
  | neg => .neg
  | not => .not

end UnaryOp

inductive Operator
  | unary (op : UnaryOp)
  | binary (op : BinaryOp)
deriving DecidableEq

namespace Operator

/-- The operator that scripts write for an operation. -/
def ofMath : MathOp → Operator
  | .neg => unary .neg
  | .not => unary .not
  | .mul => binary .mul
  | .add => binary .add
  | .sub => binary .sub
  | .shl => binary .shl
  | .shr => binary .shr
  | .lt => binary .lt
  | .gt => binary .gt
  | .le => binary .le
  | .ge => binary .ge
  | .eq => binary .eq
  | .and => binary .bitAnd
  | .or => binary .bitOr
  | .logicalAnd => binary .and
  | .logicalOr => binary .or

end Operator

end MapScript
