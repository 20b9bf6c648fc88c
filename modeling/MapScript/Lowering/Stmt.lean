import MapScript.Lowering.Expr

/-!
# Code of statements

A condition jumps over its body to a label of its own.  These labels are numbered through the
script in the order in which their conditions start, so the number of the next one is passed from
statement to statement, also past a failure.
-/

namespace MapScript.Lowering

def endLabel (number : Nat) : String := "__end_if_" ++ Numeral.decimal number

/-- The code of `System.call_function(id, entity)`. -/
def callFunction : List Expr → Fragment
  | [id, entity] =>
    match id.literal? with
    | none => .fail (.expectedLiteral "System.call_function")
    | some n =>
      match Opcode.ofCall? n.toNat with
      | none => .fail (.literalOutOfRange n)
      | some op => ofExpr entity ++ .emit (.bare op)
  | args => .fail (.argumentCount "System.call_function" 2 args.length)

/-- The code of an assignment. -/
def assign (target value : Expr) : Fragment :=
  ofExpr target ++ ofExpr value ++ .emit (.bare .write)

/-- The code of `qualifier.name(args)` as a statement. -/
def callStmt (qualifier name : String) (args : List Expr) : Fragment :=
  match qualifier, name with
  | "System", "call_function" => callFunction args
  | "Memory", "write" =>
    match args with
    | [target, value] => assign target value
    | args => .fail (.argumentCount "Memory.write" 2 args.length)
  | "System", "wait" =>
    match args with
    | [frames] => ofExpr frames ++ .emit (.bare .waitFrames) ++ .emit (.bare .wait)
    | args => .fail (.argumentCount "System.wait" 1 args.length)
  | qualifier, name =>
    match Opcode.ofFunction? qualifier name with
    | none => .fail (.unknownFunction (qualifier ++ "." ++ name))
    | some op =>
      if op.entry.pushesResult then .fail (.discardedValue (qualifier ++ "." ++ name))
      else applied op args.length (ofExprs args)

/-- The code of an expression as a statement. -/
def exprStmt (e : Expr) : Fragment :=
  match e.pathCall? with
  | none => .fail (.notAStatement e.brief)
  | some (qualifier, name, args) => callStmt qualifier name args

mutual

/-- The code of a statement, and the number of the next label. -/
def ofStmt (next : Nat) : Stmt → Fragment × Nat
  | .expr e => (exprStmt e, next)
  | .ifThen condition body =>
    let start := ofExpr condition ++ .emit (.insn .gotoIfFalse [.label (endLabel next)])
    match start.failure with
    | some _ => (start, next + 1)
    | none =>
      let (code, next') := ofStmts (next + 1) body
      (start ++ code ++ .emit (.label (endLabel next)), next')
  | .goto name => (.emit (.insn .goto [.label name]), next)
  | .label name => (.emit (.label name), next)
  | .assign target value => (assign target value, next)
  | .ret => (.emit (.bare .ret), next)
  | .block body => ofStmts next body

/-- The code of statements up to the first that fails. -/
def ofStmts (next : Nat) : List Stmt → Fragment × Nat
  | [] => (.empty, next)
  | s :: rest =>
    let (code, next') := ofStmt next s
    match code.failure with
    | some _ => (code, next')
    | none =>
      let (more, next'') := ofStmts next' rest
      (code ++ more, next'')

end

/-- The code of a script. -/
def ofScript (stmts : List Stmt) : Except LoweringError (List CodeItem) :=
  (ofStmts 0 stmts).1.toExcept

/-- The fragment of each statement, where one that fails does not stop the next. -/
def each (next : Nat) : List Stmt → List Fragment
  | [] => []
  | s :: rest => (ofStmt next s).1 :: each (ofStmt next s).2 rest

end MapScript.Lowering
