import MapScript.Script.Render
import MapScript.Structured

/-!
# From code to script

The text of the script that code at a given offset stands for, on request below a commented listing
with offsets where a star marks the lines that are jumped to.
-/

namespace MapScript.Script

/-- A program as comments, a line each. -/
def header (p : Program) : String :=
  "\n".intercalate (p.lines.map fun l =>
    "-- " ++ Numeral.hexUpper 4 l.offset ++ (if p.isLabelled l.offset then "* " else "  ") ++
      l.insn.text)

/-- The text of code at `start`, below the header if `debug` asks for it. -/
def textOfInstructions (debug : Bool) (start : Nat) (code : List Instruction) :
    Except RecoveryError String := do
  let p ← Program.build start code
  let script := render (← Structured.ofProgram p).stmts
  if !debug then return script
  else if script.isEmpty then return header p
  else return header p ++ "\n" ++ script

/-- The text of a listing. -/
def textOfListing (debug : Bool) (start : Nat) (text : String) :
    Except RecoveryError String := do
  textOfInstructions debug start (← (Listing.parse text).mapError .listing)

/-- The text of words. -/
def textOfWords (debug : Bool) (start : Nat) (words : List UInt16) :
    Except RecoveryError String := do
  textOfInstructions debug start (← (Bytecode.decode words).mapError .decode)

end MapScript.Script
