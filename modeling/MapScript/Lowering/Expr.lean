import MapScript.Lowering.Reference

/-!
# Code of expressions

Operands come first, then the operation on them: each expression becomes code that leaves its value
on the stack.
-/

namespace MapScript.Lowering

/-- The push instruction for a load; `e` is what it is written as. -/
def push (e : Expr) : Except LoweringError Reference.Load → Fragment
  | .error err => .fail err
  | .ok load =>
    match Opcode.ofKind? (.push load.source) with
    | some op => .emit (.insn op [.value load.operand])
    | none => .fail (.unknownSymbol e.brief)

/-- The opcode behind the code of its arguments, if they are as many as it takes. -/
def applied (op : Opcode) (count : Nat) (args : Fragment) : Fragment :=
  if count = op.entry.pops then args ++ .emit (.bare op)
  else .fail (.argumentCount op.entry.path op.entry.pops count)

mutual

def ofExpr : Expr → Fragment
  | .literal l => push (.literal l) ((Reference.word l.value).map (⟨.constant, ·⟩))
  | .ident name => .fail (.notAValue name)
  | .member object property => push (.member object property) (Reference.ofMember object property)
  | .index base i => push (.index base i) (Reference.ofIndex base i)
  | .call callee args =>
    match callee.path? with
    | none => .fail (.unknownFunction (Expr.call callee args).brief)
    | some (qualifier, name) =>
      match Bank.ofName? qualifier, Width.ofName? name with
      | some bank, some width =>
        push (.call callee args)
          (Reference.ofCall bank width args (Expr.call callee args).brief)
      | _, _ =>
        match Opcode.ofFunction? qualifier name with
        | none => .fail (.unknownFunction (qualifier ++ "." ++ name))
        | some op =>
          if op.entry.pushesResult then applied op args.length (ofExprs args)
          else .fail (.notAValue (qualifier ++ "." ++ name))
  | .binary op lhs rhs =>
    match op.math? with
    | none => .fail (.unsupportedOperator op.symbol)
    | some m => ofExpr lhs ++ ofExpr rhs ++ .emit (.bare (.math m))
  | .unary op operand => ofExpr operand ++ .emit (.bare (.math op.math))

/-- The code of several expressions, one behind the other. -/
def ofExprs : List Expr → Fragment
  | [] => .empty
  | e :: rest => ofExpr e ++ ofExprs rest

end

end MapScript.Lowering
