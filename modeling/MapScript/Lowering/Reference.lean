import MapScript.Fragment
import MapScript.Symbol.Entity
import MapScript.Symbol.Field
import MapScript.Symbol.Register
import MapScript.Symbol.Savemap

/-!
# References

The forms that name a value which one push instruction loads:

* `Bank[a].byte`, `Bank[a].word`, `Bank[a].bit[n]`, also written as calls `Bank.byte(a)`,
  `Bank.word(a)`, `Bank.bit(a, n)`,
* `Special[a].bit`,
* `Savemap.name`, `Savemap.name.bit[n]`, `Special.name`, `Entities.name`, `Fields.name`.

Addresses count from the base of the bank; bit `n` of the byte at offset `o` is operand
`8 * o + n`.  Both are worked out in 32 bits, step by step.
-/

namespace MapScript.Reference

/-- What a push instruction loads. -/
structure Load where
  source : Source
  operand : UInt16
deriving DecidableEq

/-! ## Operands -/

/-- A number as an operand. -/
def word (value : UInt32) : Except LoweringError UInt16 :=
  if value.toNat < 0x10000 then .ok (UInt16.ofNat value.toNat)
  else .error (.literalOutOfRange value)

/-- A value that fits a word. -/
def fit? (value : UInt32) : Option UInt16 :=
  if value < 0x10000 then some value.toUInt16 else none

/-- The offset of an address in its bank, unless it lies below the base. -/
def offset? (bank : Bank) (address : UInt32) : Option UInt32 :=
  let base := UInt32.ofNat bank.base
  if base ≤ address then some (address - base) else none

/-- The number of the first bit of the byte at an offset, unless it takes more than 32 bits. -/
def firstBit? (offset : UInt32) : Option UInt32 :=
  if offset.toNat * 8 < UInt32.size then some (offset * 8) else none

/-- The operand of the byte or word at an address. -/
def operandAt (bank : Bank) (address : UInt32) : Except LoweringError UInt16 :=
  match (offset? bank address).bind fit? with
  | some operand => .ok operand
  | none => .error (.offsetOutOfRange bank address)

/-- The operand of a bit of the byte at an address. -/
def operandOfBit (bank : Bank) (address bit : UInt32) : Except LoweringError UInt16 :=
  if 7 < bit then .error (.bitOutOfRange bit)
  else
    match ((offset? bank address).bind firstBit?).bind fun first => fit? (first + bit) with
    | some operand => .ok operand
    | none => .error (.offsetOutOfRange bank address)

/-! ## Forms -/

/-- The bank and address of `Bank[address]`. -/
def cell? : Expr → Option (Bank × UInt32)
  | .index (.ident name) (.literal l) => (Bank.ofName? name).map (·, l.value)
  | _ => none

/-- `Bank[address].width`; a bit of the savemap or of scratch memory needs its number. -/
def ofCell (bank : Bank) (address : UInt32) (width : Width) (unknown : LoweringError) :
    Except LoweringError Load :=
  match bank, width with
  | .special, .bit => (word address).map (⟨.memory .special .bit, ·⟩)
  | _, .bit => .error unknown
  | _, _ => (operandAt bank address).map (⟨.memory bank width, ·⟩)

/-- `qualifier.name` for one of the named values. -/
def ofName (qualifier name : String) (unknown : LoweringError) : Except LoweringError Load :=
  match qualifier with
  | "Savemap" =>
    match Symbol.Savemap.ofName? name with
    | some p =>
      (operandAt .savemap (UInt32.ofNat p.address)).map (⟨.memory .savemap p.width, ·⟩)
    | none => .error unknown
  | "Special" =>
    match Symbol.Register.ofName? name with
    | some (id, width) => .ok ⟨.memory .special width, id⟩
    | none => .error unknown
  | "Entities" =>
    match Symbol.Entity.ofName? name with
    | some id => .ok ⟨.constant, id⟩
    | none => .error unknown
  | "Fields" =>
    match Symbol.Field.ofName? name with
    | some id => .ok ⟨.constant, id⟩
    | none => .error unknown
  | _ => .error unknown

/-- What `object.property` loads. -/
def ofMember (object : Expr) (property : String) : Except LoweringError Load :=
  let unknown := LoweringError.unknownSymbol (Expr.member object property).brief
  match object with
  | .ident qualifier => ofName qualifier property unknown
  | _ =>
    match cell? object, Width.ofName? property with
    | some (bank, address), some width => ofCell bank address width unknown
    | _, _ => .error unknown

/-- The byte that `.bit[n]` may stand behind: a cell, or a named byte of the savemap. -/
def bitBase? (e : Expr) : Option (Bank × UInt32) :=
  match cell? e with
  | some c => some c
  | none =>
    match e.path? with
    | some ("Savemap", name) =>
      match Symbol.Savemap.ofName? name with
      | some p => if p.width = .byte then some (.savemap, UInt32.ofNat p.address) else none
      | none => none
    | _ => none

/-- What `base[index]` loads. -/
def ofIndex (base index : Expr) : Except LoweringError Load :=
  let unknown := LoweringError.unknownSymbol (Expr.index base index).brief
  match base, index.literal? with
  | .member object "bit", some bit =>
    match bitBase? object with
    | some (bank, address) => (operandOfBit bank address bit).map (⟨.memory bank .bit, ·⟩)
    | none => .error unknown
  | _, _ => .error unknown

/-- What the call `Bank.width(args)` loads; `text` is the call for messages. -/
def ofCall (bank : Bank) (width : Width) (args : List Expr) (text : String) :
    Except LoweringError Load :=
  let literal (e : Expr) : Except LoweringError UInt32 :=
    match e.literal? with
    | some v => .ok v
    | none => .error (.expectedLiteral text)
  let expected := if width = .bit then 2 else 1
  match width, args with
  | .bit, [address, bit] => do
    let a ← literal address
    let n ← literal bit
    (operandOfBit bank a n).map (⟨.memory bank .bit, ·⟩)
  | .byte, [address] => do
    let a ← literal address
    (operandAt bank a).map (⟨.memory bank .byte, ·⟩)
  | .word, [address] => do
    let a ← literal address
    (operandAt bank a).map (⟨.memory bank .word, ·⟩)
  | _, _ => .error (.argumentCount (bank.name ++ "." ++ width.name) expected args.length)

end MapScript.Reference
