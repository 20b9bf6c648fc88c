import MapScript.Instruction

/-!
# Code as words and bytes

`decode` reads instructions off a list of words, `encode` writes them.  Words are stored as bytes
with the low byte first.
-/

namespace MapScript.Bytecode

/-! ## Words -/

/-- Why words are no code; `index` counts words. -/
inductive DecodeError
  | unknownOpcode (index : Nat) (code : UInt16)
  | truncated (index : Nat)
  | oddLength (bytes : Nat)
deriving DecidableEq

def DecodeError.message : DecodeError → String
  | unknownOpcode index code =>
    "unknown opcode 0x" ++ Numeral.hexPadded 4 code.toNat ++ " at word " ++ Numeral.decimal index
  | truncated index => "truncated instruction at word " ++ Numeral.decimal index
  | oddLength bytes =>
    "bytecode length " ++ Numeral.decimal bytes ++ " is not a whole number of words"

/-- Why instructions have no words; `index` counts instructions. -/
inductive EncodeError
  | operandCount (index : Nat) (mnemonic : String) (expected found : Nat)
deriving DecidableEq

def EncodeError.message : EncodeError → String
  | operandCount index mnemonic expected found =>
    "instruction " ++ Numeral.decimal index ++ " (" ++ mnemonic ++ ") has " ++
      Numeral.decimal found ++ " operands, expected " ++ Numeral.decimal expected

/-- Decodes words of which the first has the given index. -/
def decodeFrom (index : Nat) : List UInt16 → Except DecodeError (List Instruction)
  | [] => .ok []
  | code :: rest =>
    match Opcode.ofCode? code with
    | none => .error (.unknownOpcode index code)
    | some op =>
      if rest.length < op.arity then .error (.truncated index)
      else do
        let more ← decodeFrom (index + 1 + op.arity) (rest.drop op.arity)
        return ⟨op, rest.take op.arity⟩ :: more
termination_by words => words.length
decreasing_by
  rw [List.length_drop, List.length_cons]
  omega

def decode (words : List UInt16) : Except DecodeError (List Instruction) := decodeFrom 0 words

/-- Encodes instructions of which the first has the given index. -/
def encodeFrom (index : Nat) : List Instruction → Except EncodeError (List UInt16)
  | [] => .ok []
  | i :: rest =>
    if i.wellFormed then do
      let more ← encodeFrom (index + 1) rest
      return i.opcode.code :: i.operands ++ more
    else .error (.operandCount index i.opcode.mnemonic i.opcode.arity i.operands.length)

def encode (code : List Instruction) : Except EncodeError (List UInt16) := encodeFrom 0 code

/-! ## Bytes -/

def wordsOfPairs : List UInt8 → List UInt16
  | low :: high :: rest => (low.toUInt16 + high.toUInt16 * 0x100) :: wordsOfPairs rest
  | _ => []

/-- The words stored in bytes, low byte first. -/
def wordsOfBytes (bytes : List UInt8) : Except DecodeError (List UInt16) :=
  if bytes.length % 2 = 0 then .ok (wordsOfPairs bytes) else .error (.oddLength bytes.length)

def bytesOfWords : List UInt16 → List UInt8
  | [] => []
  | w :: rest => w.toUInt8 :: (w >>> 8).toUInt8 :: bytesOfWords rest

end MapScript.Bytecode
