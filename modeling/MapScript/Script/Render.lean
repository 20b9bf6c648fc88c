import MapScript.Opcode
import MapScript.Stmt
import MapScript.Symbol.Entity
import MapScript.Symbol.Field
import MapScript.Symbol.Register

/-!
# Scripts as text

A statement a line, two blanks for each level, and parentheses only where the tree would be read
differently without them.  A literal whose place says that it is a field or an entity is written
by name if it has one.
-/

namespace MapScript

/-! ## What a literal stands for -/

/-- What a number means in its place. -/
inductive Role
  | plain
  | field
  | entity
deriving DecidableEq

namespace Role

/-- The name to write in place of a number. -/
def name? (role : Role) (value : UInt32) : Option String :=
  if value < 0x10000 then
    match role with
    | plain => none
    | field => (Symbol.Field.named? value.toUInt16).map ("Fields." ++ ·)
    | entity => (Symbol.Entity.named? value.toUInt16).map ("Entities." ++ ·)
  else none

/-- The role of an argument by the function and its place. -/
def ofArgument (path : Option (String × String)) (position : Nat) : Role :=
  match path with
  | none => plain
  | some (qualifier, name) =>
    if qualifier == "System" && name == "enter_field" && position == 0 then field
    else if qualifier == "System" && name == "call_function" && position == 1 then entity
    else
      match Opcode.ofFunction? qualifier name with
      | some op => if op.entry.takesEntity then entity else plain
      | none => plain

end Role

def Literal.textAs (role : Role) (l : Literal) : String := (role.name? l.value).getD l.text

namespace Expr

/-! ## Where parentheses are needed -/

def isOperation : Expr → Bool
  | binary _ _ _ | unary _ _ => true
  | _ => false

def isLiteral : Expr → Bool
  | literal _ => true
  | _ => false

/-- Whether the top operator binds less tightly than `op`. -/
def bindsLooser (op : BinaryOp) : Expr → Bool
  | binary top _ _ => top.precedence < op.precedence
  | _ => false

/-- Whether the top operator binds at most as tightly as `op`. -/
def bindsNoTighter (op : BinaryOp) : Expr → Bool
  | binary top _ _ => top.precedence ≤ op.precedence
  | _ => false

/-- `Special.register`, for a register that holds an entity. -/
def isEntityRegister (e : Expr) : Bool :=
  match e.path? with
  | some (qualifier, register) => qualifier == "Special" && Symbol.Register.holdsEntity register
  | none => false

def parenthesized (needed : Bool) (s : String) : String :=
  if needed then "(" ++ s ++ ")" else s

/-! ## Text -/

mutual

/-- The text of an expression whose place gives it a role. -/
def textAs (role : Role) : Expr → String
  | literal l => l.textAs role
  | ident name => name
  | member object property =>
    parenthesized object.isOperation (object.textAs .plain) ++ "." ++ property
  | index base i =>
    parenthesized base.isOperation (base.textAs .plain) ++ "[" ++ i.textAs .plain ++ "]"
  | call callee args =>
    parenthesized callee.isOperation (callee.textAs .plain) ++ "(" ++
      ", ".intercalate (textsFrom callee.path? 0 args) ++ ")"
  | binary op lhs rhs =>
    let left := parenthesized (lhs.bindsLooser op) (lhs.textAs .plain)
    let right :=
      if op == .eq && lhs.isEntityRegister && rhs.isLiteral then rhs.textAs .entity
      else parenthesized (rhs.bindsNoTighter op) (rhs.textAs .plain)
    left ++ " " ++ op.symbol ++ " " ++ right
  | unary op operand =>
    op.symbol ++ parenthesized operand.isOperation (operand.textAs .plain)

/-- The texts of the arguments from a position on. -/
def textsFrom (path : Option (String × String)) (position : Nat) : List Expr → List String
  | [] => []
  | arg :: rest =>
    arg.textAs (Role.ofArgument path position) :: textsFrom path (position + 1) rest

end

def text (e : Expr) : String := e.textAs .plain

end Expr

namespace Stmt

def indent (depth : Nat) : String := String.ofList (List.replicate (2 * depth) ' ')

mutual

/-- The lines of a statement at a depth. -/
def lines (depth : Nat) : Stmt → List String
  | expr e => [indent depth ++ e.text]
  | ifThen condition body =>
    (indent depth ++ "if " ++ condition.text ++ " then") ::
      linesOfList (depth + 1) body ++ [indent depth ++ "end"]
  | goto name => [indent depth ++ "goto " ++ name]
  | label name => [indent depth ++ "::" ++ name ++ "::"]
  | assign target value => [indent depth ++ target.text ++ " = " ++ value.text]
  | ret => [indent depth ++ "return"]
  | block body => linesOfList depth body

def linesOfList (depth : Nat) : List Stmt → List String
  | [] => []
  | s :: rest => s.lines depth ++ linesOfList depth rest

end

end Stmt

namespace Script

/-- Drops the line feeds at the end. -/
def dropFinalBreaks (s : String) : String :=
  String.ofList (s.toList.reverse.dropWhile (· == '\n')).reverse

/-- The text of a script, with no line feed at its end. -/
def render (stmts : List Stmt) : String :=
  dropFinalBreaks ((Stmt.linesOfList 0 stmts).foldl (fun s l => s ++ l ++ "\n") "")

end Script

end MapScript
