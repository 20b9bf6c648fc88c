import MapScript.Proofs.Reference

/-!
# Memory by index and by call

A cell of memory is written as an index (`Bank[a].byte`, `Bank[a].word`, `Bank[a].bit[n]`) or as a
call (`Bank.byte(a)`, `Bank.word(a)`, `Bank.bit(a, n)`).  The two forms are told apart by their shape
and resolved on ways of their own, but to one load (`ofExpr_indexForm`, `ofExpr_callForm`):

    ofExpr form = push form (cellLoad bank a n width)

So they have the same code if the cell is `Addressable`, and fail alike otherwise.
-/

namespace MapScript

open Lowering

namespace Expr

/-- `Bank[a].byte`, `Bank[a].word` or `Bank[a].bit[n]`. -/
def indexForm (bank : Bank) (a n : Literal) : Width → Expr
  | .bit => index (member (index (ident bank.name) (literal a)) "bit") (literal n)
  | .byte => member (index (ident bank.name) (literal a)) "byte"
  | .word => member (index (ident bank.name) (literal a)) "word"

/-- `Bank.byte(a)`, `Bank.word(a)` or `Bank.bit(a, n)`. -/
def callForm (bank : Bank) (a n : Literal) : Width → Expr
  | .bit => call (path bank.name "bit") [literal a, literal n]
  | .byte => call (path bank.name "byte") [literal a]
  | .word => call (path bank.name "word") [literal a]

end Expr

namespace Reference

/-- The place of a cell in its bank, counted in bits where the cell is a bit. -/
def cellNumber (bank : Bank) (address bit : Nat) : Width → Nat
  | .bit => (address - bank.base) * 8 + bit
  | .byte | .word => address - bank.base

/-- The cell lies in its bank, and an opcode loads it. -/
structure Addressable (bank : Bank) (address bit : UInt32) (width : Width) : Prop where
  opcode : (Opcode.ofKind? (.push (.memory bank width))).isSome = true
  above : bank.base ≤ address.toNat
  inByte : width = .bit → bit.toNat ≤ 7
  fits : cellNumber bank address.toNat bit.toNat width ≤ 0xFFFF

def cellOperand (bank : Bank) (address bit : UInt32) : Width → Except LoweringError UInt16
  | .bit => operandOfBit bank address bit
  | .byte | .word => operandAt bank address

/-- The load of a cell. -/
def cellLoad (bank : Bank) (address bit : UInt32) (width : Width) : Except LoweringError Load :=
  (cellOperand bank address bit width).map (⟨.memory bank width, ·⟩)

theorem cellOperand_eq_ok_iff {bank : Bank} {address bit : UInt32} {width : Width} {v : UInt16} :
    cellOperand bank address bit width = .ok v ↔
      bank.base ≤ address.toNat ∧ (width = .bit → bit.toNat ≤ 7) ∧
        v.toNat = cellNumber bank address.toNat bit.toNat width := by
  cases width with
  | bit =>
    rw [cellOperand, operandOfBit_eq_ok_iff, and_left_comm, cellNumber]
    simp
  | byte | word =>
    rw [cellOperand, operandAt_eq_ok_iff, cellNumber]
    simp

theorem cell?_index (bank : Bank) (a : Literal) :
    cell? (.index (.ident bank.name) (.literal a)) = some (bank, a.value) := by
  rw [cell?, Bank.ofName?_name]
  rfl

end Reference

namespace Lowering

open Reference MapScript.Expr

/-- The way of the index. -/
theorem ofExpr_indexForm (bank : Bank) (a n : Literal) (width : Width) :
    ofExpr (indexForm bank a n width) =
      push (indexForm bank a n width) (cellLoad bank a.value n.value width) := by
  have hbyte : Width.ofName? "byte" = some .byte := Width.ofName?_name .byte
  have hword : Width.ofName? "word" = some .word := Width.ofName?_name .word
  cases width with
  | bit =>
    rw [indexForm, ofExpr]
    simp only [ofIndex, literal?, bitBase?, cell?_index, cellLoad, cellOperand]
  | byte =>
    rw [indexForm, ofExpr]
    simp only [ofMember, cell?_index, hbyte, ofCell, cellLoad, cellOperand]
  | word =>
    rw [indexForm, ofExpr]
    simp only [ofMember, cell?_index, hword, ofCell, cellLoad, cellOperand]

/-- The way of the call. -/
theorem ofExpr_callForm (bank : Bank) (a n : Literal) (width : Width) :
    ofExpr (callForm bank a n width) =
      push (callForm bank a n width) (cellLoad bank a.value n.value width) := by
  have hbit : Width.ofName? "bit" = some .bit := Width.ofName?_name .bit
  have hbyte : Width.ofName? "byte" = some .byte := Width.ofName?_name .byte
  have hword : Width.ofName? "word" = some .word := Width.ofName?_name .word
  cases width with
  | bit =>
    rw [callForm, ofExpr]
    simp only [path?_path, Bank.ofName?_name, hbit]
    rfl
  | byte =>
    rw [callForm, ofExpr]
    simp only [path?_path, Bank.ofName?_name, hbyte]
    rfl
  | word =>
    rw [callForm, ofExpr]
    simp only [path?_path, Bank.ofName?_name, hword]
    rfl

/-- **Memory is addressed exactly, in both forms.**  Both have the code of one load if the cell is
addressable, and the operand is then the place of the cell in its bank; otherwise both fail, for
reasons of one kind.  No step on the way to the operand overflows. -/
theorem ofExpr_cell (bank : Bank) (width : Width) (a n : Literal) :
    (Addressable bank a.value n.value width → ∃ op operand,
      op.kind = .push (.memory bank width) ∧
      operand.toNat = cellNumber bank a.value.toNat n.value.toNat width ∧
      ofExpr (indexForm bank a n width) = .emit (.insn op [.value operand]) ∧
      ofExpr (callForm bank a n width) = .emit (.insn op [.value operand])) ∧
    (¬ Addressable bank a.value n.value width → ∃ e e',
      ofExpr (indexForm bank a n width) = .fail e ∧ ofExpr (callForm bank a n width) = .fail e' ∧
      e.ctorIdx = e'.ctorIdx) ∧
    ∀ offset, offset? bank a.value = some offset → bank.base + offset.toNat = a.value.toNat ∧
      ∀ first, firstBit? offset = some first → first.toNat = offset.toNat * 8 ∧
        (n.value.toNat ≤ 7 → (first + n.value).toNat = first.toNat + n.value.toNat) := by
  rw [ofExpr_indexForm, ofExpr_callForm]
  refine ⟨fun h => ?_, fun h => ?_, fun offset ho => ⟨?_, fun first hf => ⟨?_, ?_⟩⟩⟩
  · obtain ⟨op, hop⟩ := Option.isSome_iff_exists.mp h.opcode
    have hfits := h.fits
    let v := UInt16.ofNat (cellNumber bank a.value.toNat n.value.toNat width)
    have hv : v.toNat = cellNumber bank a.value.toNat n.value.toNat width := by
      rw [UInt16.toNat_ofNat']
      omega
    have hload : cellLoad bank a.value n.value width = .ok ⟨.memory bank width, v⟩ := by
      rw [cellLoad, cellOperand_eq_ok_iff.mpr ⟨h.above, h.inByte, hv⟩]
      rfl
    rw [hload, push_ok hop, push_ok hop]
    exact ⟨op, v, Opcode.kind_of_ofKind? hop, hv, rfl, rfl⟩
  · cases hc : cellOperand bank a.value n.value width with
    | error e =>
      rw [cellLoad, hc]
      exact ⟨e, e, rfl, rfl, rfl⟩
    | ok v =>
      -- the operand is fine, so that only the opcode can be missing
      obtain ⟨habove, hbit, hv⟩ := cellOperand_eq_ok_iff.mp hc
      have hlt := v.toNat_lt
      have hop : Opcode.ofKind? (.push (.memory bank width)) = none := by
        by_contra hne
        exact h ⟨Option.isSome_iff_ne_none.mpr hne, habove, hbit, by omega⟩
      have hload : cellLoad bank a.value n.value width = .ok ⟨.memory bank width, v⟩ := by
        rw [cellLoad, hc]
        rfl
      simp only [hload, push, hop]
      exact ⟨_, _, rfl, rfl, rfl⟩
  · obtain ⟨hle, ho⟩ := offset?_eq_some_iff.mp ho
    omega
  · exact firstBit?_eq_some_iff.mp hf
  · exact toNat_firstBit?_add hf

/-- The last bit of the savemap that a word can number, and a bit of scratch memory, which no opcode
loads. -/
theorem ofExpr_cell_last :
    (Addressable .savemap 0x2BA3 7 .bit ∧ ∃ op operand,
      op.kind = .push (.memory .savemap .bit) ∧ operand.toNat = 0xFFFF ∧
      ofExpr (indexForm .savemap ⟨0x2BA3, .hex⟩ ⟨7, .decimal⟩ .bit) =
        .emit (.insn op [.value operand]) ∧
      ofExpr (callForm .savemap ⟨0x2BA3, .hex⟩ ⟨7, .decimal⟩ .bit) =
        .emit (.insn op [.value operand])) ∧
    ¬ Addressable .temp 0 1 .bit ∧ ∃ e e',
      ofExpr (indexForm .temp ⟨0, .decimal⟩ ⟨1, .decimal⟩ .bit) = .fail e ∧
      ofExpr (callForm .temp ⟨0, .decimal⟩ ⟨1, .decimal⟩ .bit) = .fail e' ∧
      e.ctorIdx = e'.ctorIdx := by
  have hlast : Addressable .savemap 0x2BA3 7 .bit :=
    ⟨by decide, by decide, by decide, by decide⟩
  have htemp : ¬ Addressable .temp 0 1 .bit := fun h => absurd h.opcode (by decide)
  exact ⟨⟨hlast, (ofExpr_cell .savemap .bit ⟨0x2BA3, .hex⟩ ⟨7, .decimal⟩).1 hlast⟩, htemp,
    (ofExpr_cell .temp .bit ⟨0, .decimal⟩ ⟨1, .decimal⟩).2.1 htemp⟩

/-- One bit further on. -/
example : ofExpr (callForm .savemap ⟨0x2BA4, .hex⟩ ⟨0, .decimal⟩ .bit) =
    .fail (.offsetOutOfRange .savemap 0x2BA4) := by decide +kernel

end Lowering

end MapScript
