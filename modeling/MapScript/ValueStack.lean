import MapScript.Program
import MapScript.Stmt

/-!
# The stack of values

The stack that code works on, with expressions in place of values, the top one first.  A step either
succeeds or reports an underflow; both leave a stack behind.
-/

namespace MapScript

/-- Expressions, the top one first. -/
abbrev ValueStack : Type := List Expr

/-- A computation on the stack. -/
abbrev StackM : Type → Type := ExceptT RecoveryError (StateM ValueStack)

namespace ValueStack

def push (e : Expr) : StackM Unit := modify (e :: ·)

/-- Takes `n` values, given in the order in which they were pushed. -/
def takeTop (n line : Nat) (op : Opcode) : StackM (List Expr) := do
  let s : ValueStack ← get
  if s.length < n then throw (.stackUnderflow line op.mnemonic n s.length)
  else
    set (s.drop n)
    return (s.take n).reverse

/-- Takes the top value. -/
def pop (line : Nat) (op : Opcode) : StackM Expr := do
  let s : ValueStack ← get
  match s with
  | [] => throw (.stackUnderflow line op.mnemonic 1 0)
  | e :: rest =>
    set rest
    return e

/-- Takes two values, given in the order in which they were pushed. -/
def takePair (line : Nat) (op : Opcode) : StackM (Expr × Expr) := do
  let s : ValueStack ← get
  match s with
  | rhs :: lhs :: rest =>
    set rest
    return (lhs, rhs)
  | s => throw (.stackUnderflow line op.mnemonic 2 s.length)

/-- Takes everything, given in the order in which it was pushed. -/
def clear : StackM (List Expr) := do
  let s : ValueStack ← get
  set ([] : ValueStack)
  return s.reverse

/-! ## What each step leaves -/

@[simp] theorem run_push (e : Expr) (s : ValueStack) : (push e).run s = (.ok (), e :: s) := rfl

@[simp] theorem run_pop_nil (line : Nat) (op : Opcode) :
    (pop line op).run [] = (.error (.stackUnderflow line op.mnemonic 1 0), []) := rfl

@[simp] theorem run_pop_cons (line : Nat) (op : Opcode) (e : Expr) (s : ValueStack) :
    (pop line op).run (e :: s) = (.ok e, s) := rfl

@[simp] theorem run_takePair_cons_cons (line : Nat) (op : Opcode) (lhs rhs : Expr)
    (s : ValueStack) : (takePair line op).run (rhs :: lhs :: s) = (.ok (lhs, rhs), s) := rfl

@[simp] theorem run_clear (s : ValueStack) : clear.run s = (.ok s.reverse, []) := rfl

theorem run_takeTop_of_lt {n : Nat} {s : ValueStack} (h : s.length < n) (line : Nat)
    (op : Opcode) :
    (takeTop n line op).run s = (.error (.stackUnderflow line op.mnemonic n s.length), s) := by
  show (if s.length < n then _ else _ : StackM (List Expr)).run s = _
  rw [if_pos h]
  rfl

theorem run_takeTop_of_le {n : Nat} {s : ValueStack} (h : n ≤ s.length) (line : Nat)
    (op : Opcode) : (takeTop n line op).run s = (.ok (s.take n).reverse, s.drop n) := by
  show (if s.length < n then _ else _ : StackM (List Expr)).run s = _
  rw [if_neg (Nat.not_lt.mpr h)]
  rfl

end ValueStack

end MapScript
