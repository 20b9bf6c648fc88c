import MapScript.CodeItem

/-!
# Linking

`labelTable` finds the offset of every label, `link` then puts offsets in place of labels.

* A label defined twice is reported before anything else, at its earliest second definition.
* Otherwise the first operand that cannot be resolved is reported, in order.
-/

namespace MapScript.Linking

inductive Error
  | undefinedLabel (name : String)
  | duplicateLabel (name : String)
  /-- The offset of a label is too large for a word. -/
  | offsetOverflow (offset : Nat)
deriving DecidableEq

def Error.message : Error → String
  | undefinedLabel name => "undefined label " ++ name
  | duplicateLabel name => "label " ++ name ++ " defined more than once"
  | offsetOverflow offset => "offset 0x" ++ Numeral.hex offset ++ " does not fit in a code word"

/-- The labels of code that starts at `offset`, behind those in `before`. -/
def labelTableFrom (before : List (String × Nat)) (offset : Nat) :
    List CodeItem → Except Error (List (String × Nat))
  | [] => .ok before
  | .label name :: rest =>
    if (before.lookup name).isSome then .error (.duplicateLabel name)
    else labelTableFrom ((name, offset) :: before) offset rest
  | .insn opcode _ :: rest => labelTableFrom before (offset + opcode.width) rest

/-- The offset of each label of code that starts at `base`. -/
def labelTable (base : Nat) (code : List CodeItem) : Except Error (List (String × Nat)) :=
  labelTableFrom [] base code

def linkOperand (labels : List (String × Nat)) : Operand → Except Error UInt16
  | .value v => .ok v
  | .label name =>
    match labels.lookup name with
    | none => .error (.undefinedLabel name)
    | some offset =>
      if offset < 0x10000 then .ok (UInt16.ofNat offset) else .error (.offsetOverflow offset)

def linkAll (labels : List (String × Nat)) :
    List CodeItem → Except Error (List Instruction)
  | [] => .ok []
  | .label _ :: rest => linkAll labels rest
  | .insn opcode operands :: rest => do
    let words ← operands.mapM (linkOperand labels)
    let more ← linkAll labels rest
    return ⟨opcode, words⟩ :: more

/-- The instructions of code that starts at `base`. -/
def link (base : Nat) (code : List CodeItem) : Except Error (List Instruction) := do
  linkAll (← labelTable base code) code

end MapScript.Linking
