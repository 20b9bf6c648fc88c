import MapScript.Bytecode
import MapScript.Listing

/-!
# Functions in place

A `Program` is a function body whose instructions have their offsets.  `Program.build` places
instructions and accepts them if

* every jump goes to an instruction or to the end of the code,
* every conditional jump goes forward, and
* the regions that conditional jumps skip are nested.

The first line against the first rule is reported, or else the first against one of the others.
-/

namespace MapScript

/-- Why code is no script; `line` counts instructions from one. -/
inductive RecoveryError
  | listing (e : Listing.Error)
  | decode (e : Bytecode.DecodeError)
  | stackUnderflow (line : Nat) (mnemonic : String) (needed found : Nat)
  | targetNotFound (line target : Nat)
  /-- A region reaches past the end of a region around it. -/
  | overlappingBranch (line target : Nat)
  | backwardBranch (line target : Nat)
deriving DecidableEq

def RecoveryError.message : RecoveryError → String
  | listing e => e.message
  | decode e => e.message
  | stackUnderflow line mnemonic needed found =>
    "stack underflow for " ++ mnemonic ++ " at line " ++ Numeral.decimal line ++ ": needs " ++
      Numeral.decimal needed ++ ", have " ++ Numeral.decimal found
  | targetNotFound line target =>
    "target offset " ++ Numeral.hex target ++ " not found at line " ++ Numeral.decimal line
  | overlappingBranch line target =>
    "conditional at line " ++ Numeral.decimal line ++ " jumps to " ++ Numeral.hex target ++
      ", past the end of an enclosing conditional"
  | backwardBranch line target =>
    "conditional at line " ++ Numeral.decimal line ++ " jumps backwards to " ++ Numeral.hex target

/-- An instruction and its offset. -/
structure Line where
  offset : Nat
  insn : Instruction
deriving DecidableEq

structure Program where
  lines : List Line
  /-- The offsets that need a label: where unconditional jumps go. -/
  labelled : List Nat
  /-- The offset behind the last instruction. -/
  stop : Nat
deriving DecidableEq

namespace Program

/-- The index of the line at an offset. -/
def indexOf? (p : Program) (offset : Nat) : Option Nat := p.lines.findIdx? (·.offset == offset)

def isLabelled (p : Program) (offset : Nat) : Bool := p.labelled.contains offset

/-! ## Placing instructions -/

/-- The lines of instructions of which the first stands at `start`. -/
def place (start : Nat) (code : List Instruction) : List Line :=
  (offsets start code).zipWith Line.mk code

/-- Adds an offset to ascending ones. -/
def insertOffset (t : Nat) : List Nat → List Nat
  | [] => [t]
  | x :: xs => if t < x then t :: x :: xs else if t = x then x :: xs else x :: insertOffset t xs

/-- The offsets that unconditional jumps go to, ascending. -/
def gotoTargets (lines : List Line) : List Nat :=
  (lines.filterMap fun l => if l.insn.kind = .goto then l.insn.target? else none).foldr
    insertOffset []

theorem mem_insertOffset {t x : Nat} {xs : List Nat} :
    x ∈ insertOffset t xs ↔ x = t ∨ x ∈ xs := by
  induction xs with
  | nil => simp [insertOffset]
  | cons y ys ih =>
    rw [insertOffset]
    split
    · simp
    · split
      next h => simp [h]
      next => simp [ih, or_left_comm]

/-! ## Rules -/

/-- Looks for a jump to nowhere among lines of which the first has the given number. -/
def checkJumps (p : Program) (line : Nat) : List Line → Except RecoveryError Unit
  | [] => .ok ()
  | l :: rest =>
    match l.insn.target? with
    | none => p.checkJumps (line + 1) rest
    | some target =>
      if target = p.stop ∨ (p.indexOf? target).isSome then p.checkJumps (line + 1) rest
      else .error (.targetNotFound line target)

/-- Looks for a conditional jump that goes back or out of a region around it.  `regions` holds the
ends of the regions that are open, innermost first. -/
def checkRegions (line : Nat) (regions : List Nat) : List Line → Except RecoveryError Unit
  | [] => .ok ()
  | l :: rest =>
    if l.insn.kind = .gotoIfFalse then
      match l.insn.target? with
      | none => checkRegions (line + 1) regions rest
      | some target =>
        if target ≤ l.offset then .error (.backwardBranch line target)
        else
          match regions.dropWhile (· ≤ l.offset) with
          | [] => checkRegions (line + 1) [target] rest
          | around :: others =>
            if around < target then .error (.overlappingBranch line target)
            else checkRegions (line + 1) (target :: around :: others) rest
    else checkRegions (line + 1) regions rest

/-- Instructions in place from `start` on. -/
def ofInstructions (start : Nat) (code : List Instruction) : Program :=
  let lines := place start code
  ⟨lines, gotoTargets lines, codeEnd start code⟩

/-- Instructions in place from `start` on, if they follow the rules. -/
def build (start : Nat) (code : List Instruction) : Except RecoveryError Program := do
  let p := ofInstructions start code
  p.checkJumps 1 p.lines
  checkRegions 1 [] p.lines
  return p

end Program

end MapScript
