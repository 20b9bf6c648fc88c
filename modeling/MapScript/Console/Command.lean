import MapScript.Offset

/-!
# Command lines

A command line is the name of a command, its inputs and its options, in any order behind the name.
An option with a value is written `--name value` or `--name=value`, the output also `-o value` or
`-ovalue`.  Behind `--` everything is an input.  No option may be given twice.
-/

namespace MapScript.Console

inductive Command
  /-- Code as a listing. -/
  | disasm (input : String) (offset : Option Nat)
  /-- A listing as code. -/
  | asm (input : String) (output : Option String)
  /-- Listings, or code, as scripts. -/
  | decompile (inputs : List String) (offset : Nat) (debug binary : Bool)
  /-- A script as a listing, or as code. -/
  | compile (input : String) (offset : Nat) (binary : Bool) (output : Option String)
  /-- The scripts of a manifest. -/
  | batch (manifest : String) (output : Option String) (debug : Bool)
  /-- The instruction table. -/
  | opcodes
deriving DecidableEq

/-- Why a command line was refused. -/
inductive UsageError
  | missingCommand
  | unknownCommand (name : String)
  | unknownOption (text : String)
  | missingValue (option : String)
  | unexpectedValue (option : String)
  | repeated (option : String)
  | badOffset (e : Offset.Error)
  | missingInput
  | unexpectedInput (text : String)
  | emptyPath
  | missingOption (option : String)
deriving DecidableEq

def UsageError.message : UsageError → String
  | missingCommand => "a command is needed: disasm, asm, decompile, compile, batch or opcodes"
  | unknownCommand name => "unknown command " ++ Text.quoted name
  | unknownOption text => "unknown option " ++ Text.quoted text
  | missingValue option => "--" ++ option ++ " needs a value"
  | unexpectedValue option => "--" ++ option ++ " takes no value"
  | repeated option => "--" ++ option ++ " is given twice"
  | badOffset e => e.message
  | missingInput => "an input is needed"
  | unexpectedInput text => "unexpected input " ++ Text.quoted text
  | emptyPath => "a path is empty"
  | missingOption option => "--" ++ option ++ " is needed"

/-! ## Options -/

inductive Switch
  | offset
  | output
  | debug
  | binary
deriving DecidableEq

namespace Switch

def name : Switch → String
  | offset => "offset"
  | output => "output"
  | debug => "debug"
  | binary => "binary"

def takesValue : Switch → Bool
  | offset | output => true
  | debug | binary => false

end Switch

/-- What a command line holds behind the name of the command. -/
structure Arguments where
  inputs : List String
  /-- The options, with an empty value for those that take none. -/
  options : List (Switch × String)

/-- Whether a word can be the value of an option. -/
def isValue (word : String) : Bool := word == "-" || word.toList.head? != some '-'

/-- The option that a word names, and the value that is part of the word. -/
def option? (known : List Switch) (word : List Char) : Option (Switch × Option String) :=
  match word with
  | '-' :: '-' :: rest =>
    let name := rest.takeWhile (· != '=')
    let value :=
      match rest.dropWhile (· != '=') with
      | [] => none
      | _ :: value => some (String.ofList value)
    (known.find? (·.name == String.ofList name)).map (·, value)
  | '-' :: 'o' :: rest =>
    if known.contains .output then
      match rest with
      | [] => some (.output, none)
      | '=' :: value => some (.output, some (String.ofList value))
      | value => some (.output, some (String.ofList value))
    else none
  | _ => none

/-- Adds an option in front of those that follow it. -/
def addOption (s : Switch) (value : String) (args : Arguments) : Except UsageError Arguments :=
  if (args.options.lookup s).isSome then .error (.repeated s.name)
  else .ok { args with options := (s, value) :: args.options }

/-- Sorts the words behind the name of a command that knows some options. -/
def readArguments (known : List Switch) : List String → Except UsageError Arguments
  | [] => .ok ⟨[], []⟩
  | "--" :: rest => .ok ⟨rest, []⟩
  | word :: rest =>
    if isValue word then do
      let args ← readArguments known rest
      return { args with inputs := word :: args.inputs }
    else
      match option? known word.toList with
      | none => .error (.unknownOption word)
      | some (s, some value) =>
        if s.takesValue then do addOption s value (← readArguments known rest)
        else .error (.unexpectedValue s.name)
      | some (s, none) =>
        if s.takesValue then
          match rest with
          | value :: rest =>
            if isValue value then do addOption s value (← readArguments known rest)
            else .error (.missingValue s.name)
          | [] => .error (.missingValue s.name)
        else do addOption s "" (← readArguments known rest)

namespace Arguments

def has (args : Arguments) (s : Switch) : Bool := (args.options.lookup s).isSome

def offset? (args : Arguments) : Except UsageError (Option Nat) :=
  match args.options.lookup .offset with
  | none => .ok none
  | some text =>
    match Offset.parse text with
    | .ok v => .ok (some v)
    | .error e => .error (.badOffset e)

def offset (args : Arguments) : Except UsageError Nat := do
  match ← args.offset? with
  | some v => return v
  | none => throw (.missingOption "offset")

def output? (args : Arguments) : Except UsageError (Option String) :=
  match args.options.lookup .output with
  | some "" => .error .emptyPath
  | value => .ok value

def someInputs (args : Arguments) : Except UsageError (List String) :=
  if args.inputs.isEmpty then .error .missingInput
  else if args.inputs.contains "" then .error .emptyPath
  else .ok args.inputs

def input (args : Arguments) : Except UsageError String := do
  match ← args.someInputs with
  | [path] => return path
  | _ :: extra :: _ => throw (.unexpectedInput extra)
  | [] => throw .missingInput

end Arguments

namespace Command

/-- The command of a command line. -/
def ofArgs : List String → Except UsageError Command
  | [] => .error .missingCommand
  | "disasm" :: rest => do
    let args ← readArguments [.offset] rest
    return disasm (← args.input) (← args.offset?)
  | "asm" :: rest => do
    let args ← readArguments [.output] rest
    return asm (← args.input) (← args.output?)
  | "decompile" :: rest => do
    let args ← readArguments [.offset, .debug, .binary] rest
    return decompile (← args.someInputs) (← args.offset) (args.has .debug) (args.has .binary)
  | "compile" :: rest => do
    let args ← readArguments [.offset, .binary, .output] rest
    return compile (← args.input) (← args.offset) (args.has .binary) (← args.output?)
  | "batch" :: rest => do
    let args ← readArguments [.output, .debug] rest
    return batch (← args.input) (← args.output?) (args.has .debug)
  | "opcodes" :: rest => do
    let args ← readArguments [] rest
    match args.inputs with
    | [] => return opcodes
    | extra :: _ => throw (.unexpectedInput extra)
  | name :: _ => .error (.unknownCommand name)

end Command

end MapScript.Console
