import MapScript.Script.Code
import MapScript.Console.Command
import MapScript.Console.Host
import MapScript.Manifest.Outcome

/-!
# What commands do

A command ends with an exit status: zero, or one if anything failed.  Where one input of several
fails the others are still worked on, unless a file cannot be read.  Files and streams are those of
the host, and manifests are found by a reader that is given along with the command.
-/

namespace MapScript.Console

/-- A command that may end early with a status. -/
abbrev Run (m : Type → Type) : Type → Type := ExceptT Nat m

section

variable {m : Type → Type} [Monad m] [Host m]

/-! ## Steps -/

def printText (s : String) : Run m Unit := ExceptT.lift (Host.print s.toUTF8)

def complain (s : String) : Run m Unit := ExceptT.lift (Host.complain s)

/-- The value, or the end of the command with a message. -/
def orExit {ε α : Type} (message : ε → String) : Except ε α → Run m α
  | .ok a => pure a
  | .error e => do
    complain ("Error: " ++ message e ++ "\n")
    throw 1

/-- Says which file an error is about. -/
def aboutFile (path : String) (e : FileError) : String := path ++ ": " ++ e.message

def readBytes (path : String) : Run m ByteArray := do
  orExit (aboutFile path) (← ExceptT.lift (Host.readFile path))

def readText (path : String) : Run m String := do
  match String.fromUTF8? (← readBytes path) with
  | some s => return s
  | none => orExit (aboutFile path) (.error FileError.notText)

/-- The bytes of a file that is mapped into memory.  A folder can be opened but not mapped, and
then the message does not say which. -/
def mapBytes (path : String) : Run m ByteArray := do
  match ← ExceptT.lift (Host.readFile path) with
  | .error .isDirectory => orExit FileError.message (.error FileError.noDevice)
  | found => orExit (aboutFile path) found

def readWords (path : String) : Run m (List UInt16) := do
  orExit Bytecode.DecodeError.message (Bytecode.wordsOfBytes (← mapBytes path).toList)

/-- Writes to a file, or to the standard output if none is given. -/
def writeOutput (output : Option String) (bytes : ByteArray) : Run m Unit := do
  match output with
  | some path => orExit (aboutFile path) (← ExceptT.lift (Host.writeFile path bytes))
  | none => ExceptT.lift (Host.print bytes)

/-- Code words as they are stored. -/
def stored (words : List UInt16) : ByteArray := ⟨(Bytecode.bytesOfWords words).toArray⟩

/-! ## Commands -/

def runDisasm (input : String) (offset : Option Nat) : Run m Unit := do
  let words ← readWords input
  let code ← orExit Bytecode.DecodeError.message (Bytecode.decode words)
  printText (Listing.format offset code ++ "\n")

def runAsm (input : String) (output : Option String) : Run m Unit := do
  let code ← orExit Listing.Error.message (Listing.parse (← readText input))
  let words ← orExit Bytecode.EncodeError.message (Bytecode.encode code)
  writeOutput output (stored words)

/-- Decompiles one input; `titled` puts its name above the script. -/
def decompileInput (titled : Bool) (offset : Nat) (debug binary : Bool) (input : String) :
    Run m Bool := do
  let result ←
    if binary then pure (Script.textOfWords debug offset (← readWords input))
    else pure (Script.textOfListing debug offset (← readText input))
  if titled then printText ("-- " ++ input ++ "\n")
  match result with
  | .ok script =>
    printText (script ++ "\n")
    return true
  | .error e =>
    complain ("Error: " ++ input ++ ": " ++ e.message ++ "\n")
    return false

def runDecompile (inputs : List String) (offset : Nat) (debug binary : Bool) : Run m Unit := do
  let fine ← inputs.mapM (decompileInput (1 < inputs.length) offset debug binary)
  if fine.contains false then throw 1

def runCompile (input : String) (offset : Nat) (binary : Bool) (output : Option String) :
    Run m Unit := do
  let source ← readText input
  let bytes ←
    if binary then
      pure (stored (← orExit Script.ScriptError.message (Script.words offset source)))
    else
      let listing ← orExit Script.ScriptError.message (Script.listing offset source)
      pure (listing ++ "\n").toUTF8
  writeOutput output bytes

/-- The path of a file in a folder. -/
def joinPath (folder name : String) : String :=
  if name.toList.head? = some '/' then name
  else if folder.toList.getLast? = some '/' then folder ++ name
  else folder ++ "/" ++ name

/-- Writes the script of an outcome to its place, or says why there is none. -/
def deliver (folder : Option String) (outcome : Manifest.Outcome) : Run m Bool := do
  match outcome.result, folder with
  | .error e, _ =>
    complain ("Error: " ++ outcome.name ++ ": " ++ e.message ++ "\n")
    return false
  | .ok script, none =>
    printText ("-- " ++ outcome.name ++ "\n" ++ script ++ "\n\n")
    return true
  | .ok script, some folder =>
    let path := joinPath folder (outcome.name ++ ".ws")
    match ← ExceptT.lift (Host.writeFile path (script ++ "\n").toUTF8) with
    | .ok () => return true
    | .error e =>
      complain ("Error writing " ++ path ++ ": " ++ e.message ++ "\n")
      return false

/-- The manifest that a reader finds in a file. -/
def readManifest (read : Manifest.Reader) (path : String) : Run m Manifest := do
  orExit (fun message => path ++ ": " ++ message) (read (← readText path))

def runBatch (read : Manifest.Reader) (manifest : String) (folder : Option String) (debug : Bool) :
    Run m Unit := do
  let found ← readManifest read manifest
  if let some folder := folder then
    if let .error e ← ExceptT.lift (Host.makeFolders folder) then
      complain ("Error creating output directory: " ++ e.message ++ "\n")
      throw 1
  let fine ← (found.process debug).mapM (deliver folder)
  if fine.contains false then throw 1

/-! ## The instruction table -/

def padRight (width : Nat) (s : String) : String :=
  s ++ String.ofList (List.replicate (width - s.length) ' ')

def padLeft (width : Nat) (s : String) : String :=
  String.ofList (List.replicate (width - s.length) ' ') ++ s

/-- The row of an opcode. -/
def tableRow (e : Entry) : String :=
  Numeral.hexUpper 4 e.code.toNat ++ "  " ++ padRight 20 e.mnemonic ++ " " ++
    padRight 33 e.path ++ " " ++ padLeft 3 (Numeral.decimal e.pops) ++ "  " ++
    padLeft 3 (Numeral.decimal e.arity) ++ "  " ++ (if e.pushesResult then "yes" else "")

def tableHead : String :=
  "CODE  MNEMONIC             FUNCTION                          POP  INL  RES"

def runOpcodes : Run m Unit :=
  printText ((tableHead :: tableWithCalls.map tableRow).foldl (fun s l => s ++ l ++ "\n") "")

/-! ## Exit status -/

/-- Runs a command with a reader of manifests and returns its exit status. -/
def Command.runWith (read : Manifest.Reader) (c : Command) : m Nat := do
  let steps : Run m Unit :=
    match c with
    | disasm input offset => runDisasm input offset
    | asm input output => runAsm input output
    | decompile inputs offset debug binary => runDecompile inputs offset debug binary
    | compile input offset binary output => runCompile input offset binary output
    | batch manifest output debug => runBatch read manifest output debug
    | opcodes => runOpcodes
  match ← steps.run with
  | .ok () => return 0
  | .error status => return status

end

end MapScript.Console
