import MapScript.Expr

/-!
# Statements

A script is a list of statements.  `ifThen` is the only one with a body of its own; a `block` holds
statements that share a place, such as a label and what stands at it, and is written without
brackets.
-/

namespace MapScript

inductive Stmt
  | expr (e : Expr)
  | ifThen (condition : Expr) (body : List Stmt)
  | goto (name : String)
  | label (name : String)
  | assign (target value : Expr)
  | ret
  | block (body : List Stmt)

namespace Stmt

/-- The statement `qualifier.name(args)`. -/
def call (qualifier name : String) (args : List Expr) : Stmt :=
  expr (.call (.path qualifier name) args)

end Stmt

end MapScript
