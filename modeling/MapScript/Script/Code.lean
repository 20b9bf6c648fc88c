import MapScript.Bytecode
import MapScript.Linking
import MapScript.Listing
import MapScript.Lowering.Stmt
import MapScript.Script.Parse
import MapScript.Script.Reset
import MapScript.Token.Scan

/-!
# From script to code

`build` turns statements into instructions that stand at a given offset: resets are added, code is
written with labels, and labels become offsets.  `instructions`,
`words` and `listing` start from text.
-/

namespace MapScript.Script

/-- Why statements have no code. -/
inductive BuildError
  | lowering (e : LoweringError)
  | linking (e : Linking.Error)
deriving DecidableEq

def BuildError.message : BuildError → String
  | lowering e => e.message
  | linking e => e.message

/-- Why a text has no code. -/
inductive ScriptError
  | scan (e : Token.ScanError)
  | parse (e : ParseError)
  | build (e : BuildError)
  | encode (e : Bytecode.EncodeError)
deriving DecidableEq

def ScriptError.message : ScriptError → String
  | scan e => e.message
  | parse e => e.message
  | build e => e.message
  | encode e => e.message

/-- The statements of a text. -/
def read (text : String) : Except ScriptError (List Stmt) := do
  let tokens ← (Token.scan text).mapError .scan
  (parse tokens).mapError .parse

/-- The instructions of statements whose first one stands at `start`. -/
def build (start : Nat) (stmts : List Stmt) : Except BuildError (List Instruction) := do
  let code ← (Lowering.ofScript (withResets stmts)).mapError .lowering
  (Linking.link start code).mapError .linking

/-- The instructions of a text whose first one stands at `start`. -/
def instructions (start : Nat) (text : String) : Except ScriptError (List Instruction) := do
  (build start (← read text)).mapError .build

/-- The words of a text whose first one stands at `start`. -/
def words (start : Nat) (text : String) : Except ScriptError (List UInt16) := do
  (Bytecode.encode (← instructions start text)).mapError .encode

/-- The listing of a text, without offsets. -/
def listing (start : Nat) (text : String) : Except ScriptError String := do
  return Listing.format none (← instructions start text)

end MapScript.Script
