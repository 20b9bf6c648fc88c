import MapScript.Expr.Operator
import MapScript.Numeral

/-!
# Expressions

The expression trees of scripts.  A value is a literal, a reference to memory or to a named number,
a call that leaves a result, or an operation on values; which trees mean something is decided
where they are turned into code.
-/

namespace MapScript

/-- How a number was written. -/
inductive Radix
  | decimal
  | hex
deriving DecidableEq

structure Literal where
  value : UInt32
  radix : Radix
deriving DecidableEq

def Literal.text (l : Literal) : String :=
  match l.radix with
  | .decimal => Numeral.decimal l.value.toNat
  | .hex => "0x" ++ Numeral.hexUpper 0 l.value.toNat

inductive Expr
  | literal (lit : Literal)
  | ident (name : String)
  /-- `object.property` -/
  | member (object : Expr) (property : String)
  /-- `base[index]` -/
  | index (base index : Expr)
  /-- `callee(args)` -/
  | call (callee : Expr) (args : List Expr)
  | binary (op : BinaryOp) (lhs rhs : Expr)
  | unary (op : UnaryOp) (operand : Expr)

namespace Expr

/-! ## Building -/

def num (value : UInt32) : Expr := literal ⟨value, .decimal⟩

def hex (value : UInt32) : Expr := literal ⟨value, .hex⟩

/-- `qualifier.name` -/
def path (qualifier name : String) : Expr := member (ident qualifier) name

/-! ## Shapes -/

/-- The two names of `qualifier.name`. -/
def path? : Expr → Option (String × String)
  | member (ident qualifier) name => some (qualifier, name)
  | _ => none

def literal? : Expr → Option UInt32
  | literal l => some l.value
  | _ => none

/-- The names and arguments of `qualifier.name(args)`. -/
def pathCall? : Expr → Option (String × String × List Expr)
  | call callee args => callee.path?.map fun (qualifier, name) => (qualifier, name, args)
  | _ => none

@[simp] theorem path?_path (qualifier name : String) :
    (path qualifier name).path? = some (qualifier, name) := rfl

theorem eq_path_of_path? {e : Expr} {qualifier name : String}
    (h : e.path? = some (qualifier, name)) : e = path qualifier name := by
  unfold path? at h
  split at h
  · cases h
    rfl
  · cases h

theorem eq_call_of_pathCall? {e : Expr} {qualifier name : String} {args : List Expr}
    (h : e.pathCall? = some (qualifier, name, args)) : e = call (path qualifier name) args := by
  unfold pathCall? at h
  split at h
  · obtain ⟨⟨q, n⟩, hp, he⟩ := Option.map_eq_some_iff.mp h
    cases he
    rw [eq_path_of_path? hp]
  · cases h

/-- A short text for messages. -/
def brief : Expr → String
  | literal l => l.text
  | ident name => name
  | member object property => object.brief ++ "." ++ property
  | index base i => base.brief ++ "[" ++ i.brief ++ "]"
  | call callee _ => callee.brief ++ "(...)"
  | binary op _ _ => "`" ++ op.symbol ++ "` expression"
  | unary op _ => "`" ++ op.symbol ++ "` expression"

end Expr

end MapScript
