import MapScript.Symbol.Register
import MapScript.Symbol.Savemap
import MapScript.ValueStack

/-!
# What instructions stand for

`loaded` is the expression that a push instruction stands for, and `recover` the effect of an
instruction on the stack of expressions together with the statement that it completes, if any.
Jumps do nothing here: the walk over the program sees to them.
-/

namespace MapScript.Recovery

/-! ## Loads -/

/-- The savemap at an address, by name where it has one. -/
def savemapAt (address : Nat) (width : Width) : Expr :=
  match Symbol.Savemap.name? address width with
  | some name => .path "Savemap" name
  | none => .member (.index (.ident "Savemap") (.hex (UInt32.ofNat address))) width.name

/-- A bit of the savemap. -/
def savemapBit (operand : Nat) : Expr :=
  let address := Bank.base .savemap + operand / 8
  let byte :=
    match Symbol.Savemap.name? address .byte with
    | some name => .path "Savemap" name
    | none => .index (.ident "Savemap") (.hex (UInt32.ofNat address))
  .index (.member byte "bit") (.num (UInt32.ofNat (operand % 8)))

/-- Scratch memory, with its index in decimal below ten. -/
def tempAt (operand : UInt16) (width : Width) : Expr :=
  let index := if operand < 10 then Expr.num operand.toUInt32 else .hex operand.toUInt32
  .member (.index (.ident "Temp") index) width.name

/-- A status register, by name if it is read with its own width. -/
def registerAt (id : UInt16) (width : Width) : Expr :=
  let indexed := Expr.member (.index (.ident "Special") (.hex id.toUInt32)) width.name
  match Symbol.Register.named? id with
  | some r => if r.width = width then .path "Special" r.name else indexed
  | none => if width = .byte then .path "Special" (Symbol.Register.placeholder id) else indexed

/-- The expression that a push instruction stands for. -/
def loaded (source : Source) (operand : UInt16) : Expr :=
  match source with
  | .constant => .num operand.toUInt32
  | .memory .savemap .bit => savemapBit operand.toNat
  | .memory .savemap width => savemapAt (Bank.base .savemap + operand.toNat) width
  | .memory .temp width => tempAt operand width
  | .memory .special width => registerAt operand width

/-! ## Instructions -/

/-- The arguments of `System.wait_frames(args)`. -/
def waitFramesArgs? (e : Expr) : Option (List Expr) :=
  match e.pathCall? with
  | some ("System", "wait_frames", args) => some args
  | _ => none

/-- A call of the engine: a value if it leaves a result, and a statement otherwise. -/
def recoverCall (line : Nat) (op : Opcode) : StackM (List Stmt) := do
  let args ← ValueStack.takeTop op.entry.pops line op
  let call := Expr.call (.path op.entry.subsystem.name op.entry.name) args
  if op.entry.pushesResult then
    ValueStack.push call
    return []
  else return [.expr call]

/-- `WAIT` behind a number of frames is one statement with it. -/
def recoverWait (line : Nat) (op : Opcode) : StackM (List Stmt) := do
  let s : ValueStack ← get
  match s.head?.bind waitFramesArgs? with
  | some args =>
    let _ ← ValueStack.pop line op
    return [.call "System" "wait" args]
  | none => recoverCall line op

/-- The effect of an instruction, and the statements that it completes. -/
def recover (i : Instruction) (line : Nat) : StackM (List Stmt) := do
  let op := i.opcode
  match i.kind with
  | .nop => return []
  | .reset =>
    let _ ← ValueStack.clear
    return []
  | .push source =>
    ValueStack.push (loaded source (i.operands.headD 0))
    return []
  | .math m =>
    match Operator.ofMath m with
    | .unary u =>
      let e ← ValueStack.pop line op
      ValueStack.push (.unary u e)
      return []
    | .binary b =>
      let (lhs, rhs) ← ValueStack.takePair line op
      ValueStack.push (.binary b lhs rhs)
      return []
  | .write =>
    let value ← ValueStack.pop line op
    let target ← ValueStack.pop line op
    return [.assign target value]
  | .callFunction =>
    let entity ← ValueStack.pop line op
    let number := op.code - callEntry.code
    return [.call "System" "call_function" [.num number.toUInt32, entity]]
  | .ret => return [.ret]
  | .generic => if op = .wait then recoverWait line op else recoverCall line op
  | .goto | .gotoIfFalse => return []

end MapScript.Recovery
