import MapScript.Opcode
import MapScript.Stmt

/-!
# Stack resets

The stack is reset ahead of every statement that builds up values: each condition, each assignment
and each call that takes arguments.  Bodies are treated alike, and blocks dissolve.
-/

namespace MapScript.Script

def resetCall : Stmt := .call "System" "reset_stack" []

/-- Whether a call takes values from the stack. -/
def takesArguments (e : Expr) : Bool :=
  match e.pathCall? with
  | none => false
  | some (qualifier, name, _) =>
    (qualifier == "System" && name == "call_function") ||
      (qualifier == "Memory" && name == "write") ||
      match Opcode.ofFunction? qualifier name with
      | some op => 0 < op.entry.pops
      | none => false

mutual

/-- A statement with the resets that it needs. -/
def withReset : Stmt → List Stmt
  | .expr e => if takesArguments e then [resetCall, .expr e] else [.expr e]
  | .ifThen condition body => [resetCall, .ifThen condition (withResets body)]
  | .goto name => [.goto name]
  | .label name => [.label name]
  | .assign target value => [resetCall, .assign target value]
  | .ret => [.ret]
  | .block body => withResets body

/-- A list of statements with the resets that they need. -/
def withResets : List Stmt → List Stmt
  | [] => []
  | s :: rest => withReset s ++ withResets rest

end

end MapScript.Script
