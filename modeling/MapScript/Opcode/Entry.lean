/-!
# What the instruction table says of an opcode

An `Entry` describes one opcode: its code and mnemonic, the path under which scripts call it, how
many values it pops, how many operand words follow it, and its `Kind`, on which every reader and
writer of code decides.
-/

namespace MapScript

/-! ## Subsystems -/

/-- The part of the engine that an opcode belongs to; scripts write it before the dot. -/
inductive Subsystem
  | system
  | math
  | entity
  | point
  | camera
  | sound
  | memory
  | window
  | player
  | battle
  | field
  | savemap
  | special
  | temp
deriving DecidableEq

namespace Subsystem

def all : List Subsystem :=
  [system, math, entity, point, camera, sound, memory, window, player, battle, field, savemap,
    special, temp]

def name : Subsystem → String
  | system => "System"
  | math => "Math"
  | entity => "Entity"
  | point => "Point"
  | camera => "Camera"
  | sound => "Sound"
  | memory => "Memory"
  | window => "Window"
  | player => "Player"
  | battle => "Battle"
  | field => "Field"
  | savemap => "Savemap"
  | special => "Special"
  | temp => "Temp"

def ofName? (s : String) : Option Subsystem := all.find? (·.name == s)

@[simp] theorem ofName?_name (s : Subsystem) : ofName? s.name = some s := by
  cases s <;> decide

end Subsystem

/-! ## Memory -/

/-- The memory that a load reads from. -/
inductive Bank
  /-- Saved data. -/
  | savemap
  /-- Scratch memory of the running script. -/
  | temp
  /-- Status registers of the engine. -/
  | special
deriving DecidableEq

namespace Bank

def subsystem : Bank → Subsystem
  | savemap => .savemap
  | temp => .temp
  | special => .special

def name (b : Bank) : String := b.subsystem.name

def ofName? (s : String) : Option Bank := [savemap, temp, special].find? (·.name == s)

/-- The address that scripts write for operand zero. -/
def base : Bank → Nat
  | savemap => 0xBA4
  | temp => 0
  | special => 0

@[simp] theorem ofName?_name (b : Bank) : ofName? b.name = some b := by
  cases b <;> decide

end Bank

/-- How much of memory a load reads. -/
inductive Width
  | bit
  | byte
  | word
deriving DecidableEq

namespace Width

def name : Width → String
  | bit => "bit"
  | byte => "byte"
  | word => "word"

def ofName? (s : String) : Option Width := [bit, byte, word].find? (·.name == s)

@[simp] theorem ofName?_name (w : Width) : ofName? w.name = some w := by
  cases w <;> decide

end Width

/-- Where a pushed value comes from. -/
inductive Source
  /-- The operand itself. -/
  | constant
  /-- Memory at the operand, which counts bits where the width is a bit. -/
  | memory (bank : Bank) (width : Width)
deriving DecidableEq

/-! ## Kinds -/

/-- Arithmetic, comparison and logic. -/
inductive MathOp
  | neg
  | not
  | mul
  | add
  | sub
  | shl
  | shr
  | lt
  | gt
  | le
  | ge
  | eq
  | and
  | or
  | logicalAnd
  | logicalOr
deriving DecidableEq

namespace MathOp

def all : List MathOp :=
  [neg, not, mul, add, sub, shl, shr, lt, gt, le, ge, eq, and, or, logicalAnd, logicalOr]

def isUnary : MathOp → Bool
  | neg | not => true
  | _ => false

end MathOp

/-- What an opcode does, as far as code has to be read or written. -/
inductive Kind
  | nop
  | reset
  | push (source : Source)
  | math (op : MathOp)
  | write
  | goto
  | gotoIfFalse
  | ret
  | callFunction
  /-- A call of the engine, with all its arguments on the stack. -/
  | generic
deriving DecidableEq

/-- Facts that the kind leaves open. -/
inductive Flag
  /-- Leaves a value on the stack. -/
  | pushesResult
  /-- The operand is a code offset. -/
  | jump
  /-- Pops a condition before it jumps. -/
  | conditional
  /-- Ends the function. -/
  | terminator
  /-- Literal arguments are entities. -/
  | modelArgument
deriving DecidableEq

/-! ## Entries -/

structure Entry where
  code : UInt16
  mnemonic : String
  subsystem : Subsystem
  name : String
  /-- Values taken from the stack. -/
  pops : Nat
  /-- Operand words behind the opcode. -/
  arity : Nat
  kind : Kind
  flags : List Flag
  description : String
deriving DecidableEq

namespace Entry

def pushesResult (e : Entry) : Bool := e.flags.contains .pushesResult

def isJump (e : Entry) : Bool := e.flags.contains .jump

def takesEntity (e : Entry) : Bool := e.flags.contains .modelArgument

/-- Whether a script can write the opcode as `Subsystem.name(...)`. -/
def isCallable (e : Entry) : Bool :=
  match e.kind with
  | .nop | .reset | .math _ | .write | .generic => true
  | _ => false

/-- `Subsystem.name`. -/
def path (e : Entry) : String := e.subsystem.name ++ "." ++ e.name

end Entry

end MapScript
