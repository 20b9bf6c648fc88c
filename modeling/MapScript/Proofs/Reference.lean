import MapScript.Lowering.Expr
import MapScript.Proofs.Numeral
import MapScript.Proofs.Opcode
import MapScript.Recovery

/-!
# Loads are written as they are read

The expression that a push instruction stands for turns into that very instruction again, for every
source that has an opcode and every operand:

    ofKind? (.push source) = some op → ofExpr (loaded source v) = .emit (.insn op [.value v])

`Recovery.loaded` chooses between names, placeholders and addresses; `Reference` finds the load by
the shape of the expression.  The two agree since each table names a thing once
(`Savemap.ofName?_name`, `Register.ofName?_name`) and no name looks like a placeholder.
-/

namespace MapScript

/-! ## Symbols are found by their names -/

namespace Symbol

theorem placeholderDigits?_placeholder (digits : String) :
    placeholderDigits? (placeholder digits) = some digits.toList := by
  rw [placeholderDigits?, placeholder, String.toList_append]
  exact List.isPrefixOf?_eq_some_iff_append_eq.mpr rfl

/-- The names in a table are no placeholders. -/
theorem placeholderDigits?_of_names {α : Type} {name : α → String} {rows : List α}
    (h : Names "unknown_" name rows) {a : α} (ha : a ∈ rows) :
    placeholderDigits? (name a) = none :=
  h.apart a ha

namespace Savemap

theorem names_places : Names "unknown_" Place.name places := by
  apply Names.of_toList
  · simp only [places]
    repeat' first | exact String.toList_ofList | constructor
  · decide +kernel

theorem places_ofName? (p : Place) (hp : p ∈ places) : ofName? p.name = some p :=
  Names.find?_eq_some names_places hp

/-- A place that has a name at this width is found by the name. -/
theorem ofName?_name {address : Nat} {width : Width} {name : String}
    (h : name? address width = some name) : ofName? name = some ⟨address, name, width⟩ := by
  obtain ⟨p, hp, rfl⟩ := Option.map_eq_some_iff.mp h
  have hw := List.find?_some hp
  simp only [Bool.and_eq_true, beq_iff_eq] at hw
  rw [places_ofName? p (List.mem_of_find?_eq_some hp), ← hw.1, ← hw.2]

end Savemap

namespace Register

theorem names_named : Names "unknown_" Named.name named := by
  apply Names.of_toList
  · simp only [named]
    repeat' first | exact String.toList_ofList | constructor
  · decide +kernel

theorem named_ofName? (r : Named) (hr : r ∈ named) : ofName? r.name = some (r.id, r.width) := by
  rw [ofName?, Names.find?_eq_some names_named hr]

theorem ofName?_name {id : UInt16} {r : Named} (h : named? id = some r) :
    ofName? r.name = some (id, r.width) := by
  have hid : r.id = id := by simpa using List.find?_some h
  rw [named_ofName? r (List.mem_of_find?_eq_some h), hid]

/-- A register without a name is found by its placeholder, and is a byte. -/
theorem ofName?_placeholder {id : UInt16} (h : named? id = none) :
    ofName? (placeholder id) = some (id, .byte) := by
  have hnone : named.find? (·.name == placeholder id) = none := by
    rw [List.find?_eq_none]
    intro r hr he
    have hp := placeholderDigits?_of_names names_named hr
    rw [beq_iff_eq.mp he, placeholder, placeholderDigits?_placeholder] at hp
    cases hp
  unfold ofName?
  rw [hnone]
  simp only [placeholder, placeholderDigits?_placeholder, Numeral.readWord_hexPadded, h,
    Option.isNone_none, if_true]

end Register

end Symbol

/-! ## Operands -/

namespace Reference

theorem word_toUInt32 (v : UInt16) : word v.toUInt32 = .ok v := by
  have hv : v.toNat < 65536 := v.toNat_lt
  simp [word, hv]

theorem base_lt (b : Bank) : b.base < 0x10000 := by
  cases b <;> decide

theorem toNat_base_add (b : Bank) (n : Nat) (hn : n < 65536) :
    (UInt32.ofNat (b.base + n)).toNat = b.base + n := by
  have hb := base_lt b
  rw [UInt32.toNat_ofNat']
  exact Nat.mod_eq_of_lt (by omega)

/-- A value that fits a word is kept. -/
theorem fit?_eq_some_iff {v : UInt32} {w : UInt16} : fit? v = some w ↔ w.toNat = v.toNat := by
  have hlt : v < 0x10000 ↔ v.toNat < 0x10000 := UInt32.lt_iff_toNat_lt
  have hw := w.toNat_lt
  unfold fit?
  split
  · next h =>
    rw [Option.some.injEq, ← UInt16.toNat_inj, UInt32.toNat_toUInt16]
    have := hlt.mp h
    omega
  · next h =>
    rw [hlt] at h
    simp only [reduceCtorEq, false_iff]
    omega

/-- The subtraction of the base is exact. -/
theorem offset?_eq_some_iff {b : Bank} {address offset : UInt32} :
    offset? b address = some offset ↔
      b.base ≤ address.toNat ∧ offset.toNat = address.toNat - b.base := by
  have hbase : (UInt32.ofNat b.base).toNat = b.base := toNat_base_add b 0 (by omega)
  have hle : UInt32.ofNat b.base ≤ address ↔ b.base ≤ address.toNat := by
    rw [UInt32.le_iff_toNat_le, hbase]
  simp only [offset?]
  split
  · next h =>
    rw [Option.some.injEq, ← UInt32.toNat_inj, UInt32.toNat_sub_of_le _ _ h, hbase]
    have := hle.mp h
    omega
  · next h =>
    rw [hle] at h
    simp only [reduceCtorEq, false_iff]
    omega

/-- The multiplication by eight is exact. -/
theorem firstBit?_eq_some_iff {offset first : UInt32} :
    firstBit? offset = some first ↔ first.toNat = offset.toNat * 8 := by
  have hfirst := first.toNat_lt
  unfold firstBit?
  split
  · next h =>
    have hmul : (offset * 8).toNat = offset.toNat * 8 := by
      rw [UInt32.toNat_mul]
      exact Nat.mod_eq_of_lt h
    rw [Option.some.injEq, ← UInt32.toNat_inj, hmul, eq_comm]
  · next h =>
    simp only [reduceCtorEq, false_iff]
    have hsize : UInt32.size = 2 ^ 32 := rfl
    omega

/-- The sum with the number of a bit is exact. -/
theorem toNat_firstBit?_add {offset first bit : UInt32} (h : firstBit? offset = some first)
    (hb : bit.toNat ≤ 7) : (first + bit).toNat = first.toNat + bit.toNat := by
  have hfirst := first.toNat_lt
  have heq := firstBit?_eq_some_iff.mp h
  rw [UInt32.toNat_add]
  exact Nat.mod_eq_of_lt (by omega)

/-- **The operand of a byte or word is its offset**, if this fits a word. -/
theorem operandAt_eq_ok_iff {b : Bank} {address : UInt32} {v : UInt16} :
    operandAt b address = .ok v ↔
      b.base ≤ address.toNat ∧ v.toNat = address.toNat - b.base := by
  have hsteps : (offset? b address).bind fit? = some v ↔
      b.base ≤ address.toNat ∧ v.toNat = address.toNat - b.base := by
    simp only [Option.bind_eq_some_iff, offset?_eq_some_iff, fit?_eq_some_iff]
    constructor
    · rintro ⟨offset, ⟨hle, ho⟩, hv⟩
      exact ⟨hle, hv.trans ho⟩
    · rintro ⟨hle, hv⟩
      have hlt := v.toNat_lt
      refine ⟨UInt32.ofNat (address.toNat - b.base), ⟨hle, ?_⟩, ?_⟩ <;>
      · rw [UInt32.toNat_ofNat']
        omega
  rw [← hsteps, operandAt]
  cases (offset? b address).bind fit? <;> simp

/-- **The operand of a bit is its number in the bank**, if this fits a word. -/
theorem operandOfBit_eq_ok_iff {b : Bank} {address bit : UInt32} {v : UInt16} :
    operandOfBit b address bit = .ok v ↔ bit.toNat ≤ 7 ∧ b.base ≤ address.toNat ∧
      v.toNat = (address.toNat - b.base) * 8 + bit.toNat := by
  have hseven : 7 < bit ↔ 7 < bit.toNat := UInt32.lt_iff_toNat_lt
  by_cases hb : bit.toNat ≤ 7
  · have hsteps : (((offset? b address).bind firstBit?).bind fun first => fit? (first + bit)) =
        some v ↔ b.base ≤ address.toNat ∧
          v.toNat = (address.toNat - b.base) * 8 + bit.toNat := by
      simp only [Option.bind_eq_some_iff, offset?_eq_some_iff]
      constructor
      · rintro ⟨first, ⟨offset, ⟨hle, ho⟩, hf⟩, hv⟩
        have hv := fit?_eq_some_iff.mp hv
        rw [toNat_firstBit?_add hf hb, firstBit?_eq_some_iff.mp hf, ho] at hv
        exact ⟨hle, hv⟩
      · rintro ⟨hle, hv⟩
        have hlt := v.toNat_lt
        have ho : (UInt32.ofNat (address.toNat - b.base)).toNat = address.toNat - b.base := by
          rw [UInt32.toNat_ofNat']
          omega
        have hf : firstBit? (UInt32.ofNat (address.toNat - b.base)) =
            some (UInt32.ofNat ((address.toNat - b.base) * 8)) := by
          rw [firstBit?_eq_some_iff, ho, UInt32.toNat_ofNat']
          omega
        refine ⟨_, ⟨_, ⟨hle, ho⟩, hf⟩, fit?_eq_some_iff.mpr ?_⟩
        rw [toNat_firstBit?_add hf hb, firstBit?_eq_some_iff.mp hf, ho, hv]
    have hnot : ¬ 7 < bit := by rw [hseven]; omega
    rw [operandOfBit, if_neg hnot, and_iff_right hb, ← hsteps]
    cases ((offset? b address).bind firstBit?).bind fun first => fit? (first + bit) <;> simp
  · rw [operandOfBit, if_pos (hseven.mpr (by omega))]
    simp [hb]

theorem operandAt_base_add (b : Bank) (v : UInt16) :
    operandAt b (UInt32.ofNat (b.base + v.toNat)) = .ok v := by
  rw [operandAt_eq_ok_iff, toNat_base_add b _ v.toNat_lt]
  omega

theorem operandAt_toUInt32 {b : Bank} (hb : b.base = 0) (v : UInt16) :
    operandAt b v.toUInt32 = .ok v := by
  rw [operandAt_eq_ok_iff, UInt16.toNat_toUInt32]
  omega

theorem operandOfBit_base_add (v : UInt16) :
    operandOfBit .savemap (UInt32.ofNat (Bank.base .savemap + v.toNat / 8))
      (UInt32.ofNat (v.toNat % 8)) = .ok v := by
  have hv := v.toNat_lt
  have hbit : (UInt32.ofNat (v.toNat % 8)).toNat = v.toNat % 8 := by
    rw [UInt32.toNat_ofNat']
    omega
  rw [operandOfBit_eq_ok_iff, toNat_base_add _ _ (by omega), hbit]
  omega

end Reference

/-! ## Loads -/

namespace Lowering

open Reference

theorem push_ok {source : Source} {op : Opcode} (h : Opcode.ofKind? (.push source) = some op)
    (e : Expr) (v : UInt16) : push e (.ok ⟨source, v⟩) = .emit (.insn op [.value v]) := by
  simp only [push, h]

theorem ofMember_savemapAt (v : UInt16) {width : Width} (hw : width ≠ .bit) :
    ∃ object property, Recovery.savemapAt (Bank.base .savemap + v.toNat) width =
        .member object property ∧
      ofMember object property = .ok ⟨.memory .savemap width, v⟩ := by
  unfold Recovery.savemapAt
  split
  · next name hn =>
    refine ⟨_, _, rfl, ?_⟩
    simp only [ofMember, ofName, Symbol.Savemap.ofName?_name hn, operandAt_base_add]
    rfl
  · next hn =>
    refine ⟨_, _, rfl, ?_⟩
    have hc : cell? (.index (.ident "Savemap") (.hex (UInt32.ofNat (Bank.base .savemap + v.toNat))))
        = some (.savemap, UInt32.ofNat (Bank.base .savemap + v.toNat)) := rfl
    simp only [ofMember, hc, Width.ofName?_name]
    cases width with
    | bit => exact absurd rfl hw
    | byte => simp only [ofCell, operandAt_base_add]; rfl
    | word => simp only [ofCell, operandAt_base_add]; rfl

theorem ofIndex_savemapBit (v : UInt16) :
    ∃ base index, Recovery.savemapBit v.toNat = .index base index ∧
      ofIndex base index = .ok ⟨.memory .savemap .bit, v⟩ := by
  refine ⟨_, _, rfl, ?_⟩
  have hb : ∀ byte,
      bitBase? byte = some (.savemap, UInt32.ofNat (Bank.base .savemap + v.toNat / 8)) →
      ofIndex (.member byte "bit") (.num (UInt32.ofNat (v.toNat % 8))) =
        .ok ⟨.memory .savemap .bit, v⟩ := by
    intro byte h
    have hlit : (Expr.num (UInt32.ofNat (v.toNat % 8))).literal? =
      some (UInt32.ofNat (v.toNat % 8)) := rfl
    simp only [ofIndex, hlit, h, operandOfBit_base_add]
    rfl
  apply hb
  split
  · next name hn =>
    have hc : cell? (.path "Savemap" name) = none := rfl
    simp [bitBase?, hc, Symbol.Savemap.ofName?_name hn]
  · rfl

theorem ofMember_tempAt (v : UInt16) {width : Width} (hw : width ≠ .bit) :
    ∃ object property, Recovery.tempAt v width = .member object property ∧
      ofMember object property = .ok ⟨.memory .temp width, v⟩ := by
  refine ⟨_, _, rfl, ?_⟩
  have hc : cell? (.index (.ident "Temp")
      (if v < 10 then Expr.num v.toUInt32 else .hex v.toUInt32)) = some (.temp, v.toUInt32) := by
    split <;> rfl
  simp only [ofMember, hc, Width.ofName?_name]
  cases width with
  | bit => exact absurd rfl hw
  | byte => simp only [ofCell, operandAt_toUInt32 (b := .temp) rfl]; rfl
  | word => simp only [ofCell, operandAt_toUInt32 (b := .temp) rfl]; rfl

theorem ofMember_registerAt (v : UInt16) (width : Width) :
    ∃ object property, Recovery.registerAt v width = .member object property ∧
      ofMember object property = .ok ⟨.memory .special width, v⟩ := by
  have hcell : ofMember (.index (.ident "Special") (.hex v.toUInt32)) width.name =
      .ok ⟨.memory .special width, v⟩ := by
    have hc : cell? (.index (.ident "Special") (.hex v.toUInt32)) =
      some (.special, v.toUInt32) := rfl
    simp only [ofMember, hc, Width.ofName?_name]
    cases width with
    | bit => simp only [ofCell, word_toUInt32]; rfl
    | byte => simp only [ofCell, operandAt_toUInt32 (b := .special) rfl]; rfl
    | word => simp only [ofCell, operandAt_toUInt32 (b := .special) rfl]; rfl
  unfold Recovery.registerAt
  split
  · next r hr =>
    split
    · next hw =>
      refine ⟨_, _, rfl, ?_⟩
      simp only [ofMember, ofName, Symbol.Register.ofName?_name hr, hw]
    · exact ⟨_, _, rfl, hcell⟩
  · next hr =>
    split
    · next hw =>
      refine ⟨_, _, rfl, ?_⟩
      simp only [ofMember, ofName, Symbol.Register.ofName?_placeholder hr, hw]
    · exact ⟨_, _, rfl, hcell⟩

/-- **Loads come back.**  What a push instruction stands for turns into that instruction. -/
theorem ofExpr_loaded {source : Source} {op : Opcode}
    (h : Opcode.ofKind? (.push source) = some op) (v : UInt16) :
    ofExpr (Recovery.loaded source v) = .emit (.insn op [.value v]) := by
  have member : ∀ {e : Expr}, (∃ object property, e = .member object property ∧
      ofMember object property = .ok ⟨source, v⟩) → ofExpr e = .emit (.insn op [.value v]) := by
    rintro e ⟨object, property, rfl, hm⟩
    rw [ofExpr, hm, push_ok h]
  match source with
  | .constant =>
    rw [Recovery.loaded, Expr.num, ofExpr, word_toUInt32]
    exact push_ok h _ _
  | .memory .savemap .bit =>
    obtain ⟨base, index, he, hi⟩ := ofIndex_savemapBit v
    rw [Recovery.loaded, he, ofExpr, hi, push_ok h]
  | .memory .savemap .byte => exact member (ofMember_savemapAt v (by decide))
  | .memory .savemap .word => exact member (ofMember_savemapAt v (by decide))
  | .memory .temp .bit =>
    -- scratch memory has no opcode for bits
    have hn : Opcode.ofKind? (.push (.memory .temp .bit)) = none := by decide
    rw [hn] at h
    cases h
  | .memory .temp .byte => exact member (ofMember_tempAt v (by decide))
  | .memory .temp .word => exact member (ofMember_tempAt v (by decide))
  | .memory .special width => exact member (ofMember_registerAt v width)

end Lowering

end MapScript
