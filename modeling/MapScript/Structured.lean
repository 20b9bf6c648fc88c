import MapScript.Recovery

/-!
# Programs as statements

The walk over a program rebuilds conditions with their bodies.  At the top it follows jumps; in a
body it takes the lines up to the target of the condition in order.  Each line is visited once:
lines that a body has taken are passed over.

A body is a recursion over the lines behind its condition.  The walk at the top may go back, so it
is bounded by the number of lines, as many as there can be visits.
-/

namespace MapScript

/-- The statements of a program, and the values left on the stack, the top one last. -/
structure Structured where
  stmts : List Stmt
  residual : List Expr

namespace Structured

/-- The label at an offset. -/
def labelAt (offset : Nat) : String := "label_" ++ Numeral.hex offset

/-! ## Visiting a line -/

/-- What the walk carries along: the indices of the lines visited, and the stack. -/
structure State where
  visited : List Nat
  stack : ValueStack

/-- Where the walk at the top goes on. -/
inductive Resume
  | next
  | line (index : Nat)
  | stop
deriving DecidableEq

/-- The index to go on from behind the line at `index`, unless the walk ends. -/
def Resume.index? (index : Nat) : Resume → Option Nat
  | next => some (index + 1)
  | line i => some i
  | stop => none

/-- The walk of a body: its end, and the state to start from. -/
abbrev BodyWalk : Type := Nat → State → Except RecoveryError (List Stmt × State)

def targetOf (i : Instruction) (index : Nat) : Except RecoveryError Nat :=
  match i.target? with
  | some target => .ok target
  | none => .error (.targetNotFound (index + 1) 0)

def resumeAt (p : Program) (index target : Nat) : Except RecoveryError Resume :=
  if target = p.stop then .ok .stop
  else
    match p.indexOf? target with
    | some i => .ok (.line i)
    | none => .error (.targetNotFound (index + 1) target)

/-- Several statements of one line are a block. -/
def grouped : List Stmt → List Stmt
  | [] => []
  | [s] => [s]
  | stmts => [.block stmts]

/-- Visits a line; `body` walks over the lines behind it. -/
def visit (p : Program) (body : BodyWalk) (line : Line) (index : Nat) (st : State) :
    Except RecoveryError (List Stmt × Resume × State) := do
  let visited := index :: st.visited
  let labels := if p.isLabelled line.offset then [Stmt.label (labelAt line.offset)] else []
  match line.insn.kind with
  | .goto =>
    let target ← targetOf line.insn index
    let resume ← resumeAt p index target
    return (grouped (labels ++ [.goto (labelAt target)]), resume, ⟨visited, st.stack⟩)
  | .gotoIfFalse =>
    let (popped, stack) := (ValueStack.pop (index + 1) line.insn.opcode).run st.stack
    let condition ← popped
    let target ← targetOf line.insn index
    let (stmts, st') ← body target ⟨visited, stack⟩
    let resume ← resumeAt p index target
    return (grouped (labels ++ [.ifThen condition stmts]), resume, st')
  | _ =>
    let (recovered, stack) := (Recovery.recover line.insn (index + 1)).run st.stack
    let stmts ← recovered
    return (grouped (labels ++ stmts), .next, ⟨visited, stack⟩)

/-- Walks over the lines up to an offset; jumps are not followed. -/
def walkBody (p : Program) : List (Line × Nat) → BodyWalk
  | [], _, st => .ok ([], st)
  | (line, index) :: rest, target, st =>
    if line.offset < target then
      if st.visited.contains index then walkBody p rest target st
      else do
        let (stmts, _, st') ← visit p (walkBody p rest) line index st
        let (more, st'') ← walkBody p rest target st'
        return (stmts ++ more, st'')
    else .ok ([], st)

/-! ## The walk at the top -/

/-- The first line from `index` on that has not been visited, and the lines behind it. -/
def nextUnvisited (visited : List Nat) (index : Nat) :
    List (Line × Nat) → Option (Line × Nat × List (Line × Nat))
  | [] => none
  | (line, i) :: rest =>
    if i < index ∨ visited.contains i then nextUnvisited visited index rest
    else some (line, i, rest)

/-- Walks on from `index` for at most `visits` visits at the top. -/
def walk (p : Program) (visits index : Nat) (st : State) :
    Except RecoveryError (List Stmt × State) :=
  match visits with
  | 0 => .ok ([], st)
  | visits + 1 =>
    match nextUnvisited st.visited index p.lines.zipIdx with
    | none => .ok ([], st)
    | some (line, i, rest) => do
      let (stmts, resume, st') ← visit p (walkBody p rest) line i st
      match resume.index? i with
      | none => return (stmts, st')
      | some next =>
        let (more, st'') ← walk p visits next st'
        return (stmts ++ more, st'')

/-- The statements of a program.  A jump to the end of the code needs a label there. -/
def ofProgram (p : Program) : Except RecoveryError Structured := do
  let (stmts, st) ← walk p p.lines.length 0 ⟨[], []⟩
  let closing := if p.isLabelled p.stop then [Stmt.label (labelAt p.stop)] else []
  return ⟨stmts ++ closing, st.stack.reverse⟩

/-- The statements of code whose first word stands at `start`. -/
def ofInstructions (start : Nat) (code : List Instruction) : Except RecoveryError Structured := do
  ofProgram (← Program.build start code)

end Structured

end MapScript
