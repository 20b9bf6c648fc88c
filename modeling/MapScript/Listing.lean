import MapScript.Instruction
import MapScript.Text.Blank
import MapScript.Text.Quoted

/-!
# Listings

The text form of code: an instruction a line, `MNEMONIC OP OP`, with operands in hexadecimal.  A
line may start with a column `181E:` that gives its offset and is not read.  Blank lines do not
count, neither as instructions nor in line numbers.
-/

namespace MapScript.Listing

/-- Why a line is no instruction. -/
inductive Error
  | unknownMnemonic (line : Nat) (mnemonic : String)
  | operandCount (line : Nat) (mnemonic : String) (expected found : Nat)
  | badOperand (line : Nat) (text : String)
deriving DecidableEq

def Error.message : Error → String
  | unknownMnemonic line mnemonic =>
    "unknown mnemonic " ++ mnemonic ++ " at line " ++ Numeral.decimal line
  | operandCount line mnemonic expected found =>
    mnemonic ++ " takes " ++ Numeral.decimal expected ++ " inline operands, got " ++
      Numeral.decimal found ++ " at line " ++ Numeral.decimal line
  | badOperand line text =>
    "invalid operand " ++ Text.quoted text ++ " at line " ++ Numeral.decimal line

/-! ## Reading -/

/-- Hexadecimal digits and a colon. -/
def isOffsetColumn (word : List Char) : Bool :=
  let digits := word.dropLast
  word.getLast? == some ':' && !digits.isEmpty && digits.all fun c => (Numeral.digit? 16 c).isSome

def readOperand (line : Nat) (word : List Char) : Except Error UInt16 :=
  match Numeral.readWord 16 word with
  | .ok v => .ok v
  | .error _ => .error (.badOperand line (String.ofList word))

/-- Reads the words of a line behind its offset column. -/
def readInstruction (line : Nat) (words : List (List Char)) : Except Error Instruction := do
  let mnemonic := String.ofList (words.headD [])
  match Opcode.ofMnemonic? mnemonic with
  | none => throw (.unknownMnemonic line mnemonic)
  | some op =>
    let operands ← words.tail.mapM (readOperand line)
    if operands.length = op.arity then return ⟨op, operands⟩
    else throw (.operandCount line mnemonic op.arity operands.length)

def readLine (line : Nat) (words : List (List Char)) : Except Error Instruction :=
  match words with
  | [] => readInstruction line []
  | w :: rest => readInstruction line (if isOffsetColumn w then rest else w :: rest)

/-- Reads lines of which the first has the given number. -/
def readLines (line : Nat) : List (List (List Char)) → Except Error (List Instruction)
  | [] => .ok []
  | words :: rest => do
    let i ← readLine line words
    let more ← readLines (line + 1) rest
    return i :: more

def parse (text : String) : Except Error (List Instruction) :=
  readLines 1 (((Text.lines text.toList).map Text.words).filter (!·.isEmpty))

/-! ## Writing -/

/-- The lines of a listing, with the offset column if a first offset is given. -/
def lines (base : Option Nat) (code : List Instruction) : List String :=
  match base with
  | none => code.map Instruction.text
  | some b =>
    (offsets b code).zipWith (fun o i => Numeral.hexUpper 4 o ++ ": " ++ i.text) code

def format (base : Option Nat) (code : List Instruction) : String :=
  "\n".intercalate (lines base code)

end MapScript.Listing
