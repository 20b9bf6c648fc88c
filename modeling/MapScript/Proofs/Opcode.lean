import MapScript.Instruction
import MapScript.Proofs.Numeral
import MapScript.Proofs.Tables

/-!
# What the instruction table guarantees

The table is checked row by row (`row_sound`), and no two rows have the same code, mnemonic, kind or
function (`keys_nodup`, `mnemonics`, `functions_nodup`).  It follows that

* the kind of an opcode decides how many operand words follow it and whether it jumps
  (`arity_eq`, `isJump_eq`), and for machine operations how many values it takes;
* an opcode is found again by its code (`ofCode?_code`), by its mnemonic (`ofMnemonic?_mnemonic`),
  and by its kind (`ofKind?_kind`) unless that is `generic`, when it is found by its name
  (`ofFunction?_of_kind`);
* a lookup that finds an opcode finds one with the features asked for.
-/

namespace MapScript

namespace Kind

/-- The operand words behind an opcode of this kind. -/
def arity : Kind → Nat
  | push _ | goto | gotoIfFalse => 1
  | _ => 0

/-- Whether the walk over a program follows the operand. -/
def isJump : Kind → Bool
  | goto | gotoIfFalse => true
  | _ => false

end Kind

namespace Opcode

/-! ## The table -/

/-- What each row says fits together, and no row has a code between those of `CALL_FN_n`. -/
theorem row_sound : ∀ e ∈ table, (e.arity = e.kind.arity ∧ e.isJump = e.kind.isJump) ∧
    (e.kind = .generic → e.isCallable = true) ∧
    (e.isCallable = true →
      (e.pushesResult = true → e.kind = .generic ∨
        ∃ m ∈ MathOp.all, e.kind = .math m ∧ e.pops = if m.isUnary then 1 else 2) ∧
      (e.pushesResult = false → e.kind = .generic ∨ (e.kind = .write ∧ e.pops = 2) ∨
        (e.kind = .nop ∨ e.kind = .reset) ∧ e.pops = 0)) ∧
    ¬ (callEntry.code ≤ e.code ∧ e.code.toNat < callEntry.code.toNat + callCount) := by
  decide +kernel

/-- No two rows have the same code, since the codes ascend, or the same kind, unless that is
`generic`. -/
theorem keys_nodup : (table.map (·.code)).Nodup ∧
    ((table.filter (·.kind != .generic)).map (·.kind)).Nodup := by
  have hkeys : (table.map (·.code)).IsChain (· < ·) ∧
      ((table.filter (·.kind != .generic)).map (·.kind)).Nodup := by
    decide +kernel
  exact ⟨hkeys.1.pairwise.imp UInt16.ne_of_lt, hkeys.2⟩

/-- Rows are told apart by their mnemonics, and none of these looks like `CALL_FN_n`. -/
theorem mnemonics : Names callEntry.mnemonic (·.mnemonic) table := by
  apply Names.of_toList
  · simp only [table]
    repeat' first | exact String.toList_ofList | constructor
  · decide +kernel

/-- Whether calls of the engine have proper names, and callable rows are told apart by their
subsystems and names. -/
def areFunctions (rows : List (Entry × List Char)) : Bool :=
  (rows.all fun r => r.1.kind != .generic || Token.isPlainWord r.2) &&
    allDistinct ((rows.filter (·.1.isCallable)).map fun r =>
      charsNumber r.2 * 16 + r.1.subsystem.ctorIdx)

theorem areFunctions_table : areFunctions (table.map fun e => (e, e.name.toList)) = true := by
  apply of_forall₂_toList
  · simp only [table]
    repeat' first | exact String.toList_ofList | constructor
  · decide +kernel

theorem row_isPlainWord (e : Entry) (he : e ∈ table) (hk : e.kind = .generic) :
    Token.isPlainWord e.name.toList = true := by
  have h := areFunctions_table
  simp only [areFunctions, Bool.and_eq_true, List.all_map, List.all_eq_true] at h
  simpa [hk] using h.1 e he

theorem functions_nodup :
    ((table.filter (·.isCallable)).map fun e => (e.subsystem, e.name)).Nodup := by
  have h := areFunctions_table
  simp only [areFunctions, Bool.and_eq_true, List.filter_map, List.map_map] at h
  exact nodup_map_of_allDistinct (fun f => charsNumber f.2.toList * 16 + f.1.ctorIdx) h.2

/-! ## Kinds -/

theorem arity_eq (op : Opcode) : op.arity = op.kind.arity := by
  cases op with
  | row i => exact (row_sound _ (List.get_mem table i)).1.1
  | call n => rfl

theorem isJump_eq (op : Opcode) : op.entry.isJump = op.kind.isJump := by
  cases op with
  | row i => exact (row_sound _ (List.get_mem table i)).1.2
  | call n => rfl

/-! ## Lookups find what they are asked for -/

theorem exists_row_of_ofFunction? {qualifier name : String} {op : Opcode}
    (h : ofFunction? qualifier name = some op) :
    op.entry.isCallable = true ∧ op.entry.subsystem.name = qualifier ∧ op.entry.name = name ∧
      ∃ i, op = .row i := by
  unfold ofFunction? at h
  cases hs : Subsystem.ofName? qualifier with
  | none => simp [hs] at h
  | some s =>
    have hq : s.name = qualifier := by simpa using List.find?_some hs
    cases hi : table.findFinIdx? fun e => e.isCallable && e.subsystem == s && e.name == name with
    | none => simp [hs, hi] at h
    | some i =>
      simp only [hs, hi, Option.bind_eq_bind, Option.bind_some, Option.pure_def,
        Option.some.injEq] at h
      have hp := (List.findFinIdx?_eq_some_iff.mp hi).1
      simp only [Bool.and_eq_true, beq_iff_eq] at hp
      subst h
      exact ⟨hp.1.1, by rw [← hq, ← hp.1.2]; rfl, hp.2, i, rfl⟩

/-- Calls and assignments have a form of their own. -/
theorem ofFunction?_callFunction : ofFunction? "System" "call_function" = none := by
  decide

theorem ofFunction?_write : ofFunction? "Memory" "write" = none := by
  decide

theorem ofFunction?_wait : ofFunction? "System" "wait" = some .wait := by
  decide

/-- The names of memory are not those of functions. -/
theorem ofFunction?_memory (bank : Bank) (width : Width) :
    ofFunction? bank.name width.name = none := by
  cases bank <;> cases width <;> decide

theorem not_memory_of_ofFunction? {qualifier name : String} {op : Opcode}
    (h : ofFunction? qualifier name = some op) (bank : Bank) (width : Width)
    (hb : Bank.ofName? qualifier = some bank) : Width.ofName? name ≠ some width := by
  intro hw
  have hq : bank.name = qualifier := by simpa using List.find?_some hb
  have hn : width.name = name := by simpa using List.find?_some hw
  rw [← hq, ← hn, ofFunction?_memory] at h
  cases h

/-- A function with a result is a call of the engine or a machine operation. -/
theorem kind_of_pushesResult {qualifier name : String} {op : Opcode}
    (h : ofFunction? qualifier name = some op) (hp : op.entry.pushesResult = true) :
    op.kind = .generic ∨ ∃ m, op.kind = .math m ∧
      op.entry.pops = if m.isUnary then 1 else 2 := by
  obtain ⟨hc, -, -, i, rfl⟩ := exists_row_of_ofFunction? h
  rcases ((row_sound _ (List.get_mem table i)).2.2.1 hc).1 hp with hg | ⟨m, -, hm⟩
  · exact .inl hg
  · exact .inr ⟨m, hm⟩

/-- A function without a result is a call of the engine, an assignment, or does nothing that a
script can see. -/
theorem kind_of_not_pushesResult {qualifier name : String} {op : Opcode}
    (h : ofFunction? qualifier name = some op) (hp : op.entry.pushesResult = false) :
    op.kind = .generic ∨ (op.kind = .write ∧ op.entry.pops = 2) ∨
      (op.kind = .nop ∨ op.kind = .reset) ∧ op.entry.pops = 0 := by
  obtain ⟨hc, -, -, i, rfl⟩ := exists_row_of_ofFunction? h
  exact ((row_sound _ (List.get_mem table i)).2.2.1 hc).2 hp

theorem kind_of_ofKind? {k : Kind} {op : Opcode} (h : ofKind? k = some op) : op.kind = k := by
  unfold ofKind? at h
  obtain ⟨i, hi, rfl⟩ := Option.map_eq_some_iff.mp h
  have hp := (List.findFinIdx?_eq_some_iff.mp hi).1
  exact beq_iff_eq.mp hp

/-! ## Opcodes are found again -/

theorem row_ofKind? {i : Fin table.length} (h : (table.get i).kind ≠ .generic) :
    ofKind? (table.get i).kind = some (.row i) := by
  have hfind : table.findFinIdx? (·.kind == (table.get i).kind) = some i := by
    refine findFinIdx?_eq_some_of_nodup_filter keys_nodup.2 (beq_self_eq_true _) fun e he => ?_
    have hk := beq_iff_eq.mp he
    exact ⟨bne_iff_ne.mpr (hk ▸ h), hk⟩
  rw [ofKind?, hfind]
  rfl

theorem ofKind?_kind {op : Opcode} (hg : op.kind ≠ .generic) (hc : op.kind ≠ .callFunction) :
    ofKind? op.kind = some op := by
  cases op with
  | row i => exact row_ofKind? hg
  | call n => exact absurd rfl hc

theorem row_name {i : Fin table.length} (h : (table.get i).kind = .generic) :
    table.findFinIdx? (fun e => e.isCallable && e.subsystem == (table.get i).subsystem &&
      e.name == (table.get i).name) = some i := by
  refine findFinIdx?_eq_some_of_nodup_filter functions_nodup ?_ fun e he => ?_
  · simpa using (row_sound _ (List.get_mem table i)).2.1 h
  · simp only [Bool.and_eq_true, beq_iff_eq] at he
    obtain ⟨⟨hc, hs⟩, hn⟩ := he
    exact ⟨hc, by rw [hs, hn]⟩

/-- A call of the engine is found by its name. -/
theorem ofFunction?_of_kind {op : Opcode} (h : op.kind = .generic) :
    ofFunction? op.entry.subsystem.name op.entry.name = some op := by
  cases op with
  | call n => cases h
  | row i =>
    rw [ofFunction?, Subsystem.ofName?_name, entry]
    simp only [Option.bind_eq_bind, Option.bind_some, row_name h]
    rfl

theorem row_code (i : Fin table.length) : ofCode? (table.get i).code = some (.row i) := by
  have hfind : table.findFinIdx? (·.code == (table.get i).code) = some i :=
    findFinIdx?_eq_some_of_nodup keys_nodup.1 (beq_self_eq_true _) fun _ he => beq_iff_eq.mp he
  rw [ofCode?, if_neg (row_sound _ (List.get_mem table i)).2.2.2, hfind]
  rfl

/-- Every opcode is found by its code. -/
theorem ofCode?_code (op : Opcode) : ofCode? op.code = some op := by
  cases op with
  | row i => exact row_code i
  | call n =>
    have hle : callEntry.code.toNat + n < 2 ^ 16 :=
      Nat.lt_trans (Nat.add_lt_add_left n.isLt _) (by decide)
    have hn : (UInt16.ofNat n).toNat = n :=
      UInt16.toNat_ofNat_of_lt (Nat.lt_of_le_of_lt (Nat.le_add_left _ _) hle)
    have hcode : (code (.call n)).toNat = callEntry.code.toNat + n := by
      rw [code, UInt16.toNat_add, hn, Nat.mod_eq_of_lt hle]
    rw [ofCode?, if_pos ⟨UInt16.le_iff_toNat_le.mpr (by omega), by omega⟩, hcode,
      Nat.add_sub_cancel_left]
    exact dif_pos n.isLt

/-- What is found by a code has that code. -/
theorem code_of_ofCode? {code : UInt16} {op : Opcode} (h : ofCode? code = some op) :
    op.code = code := by
  unfold ofCode? at h
  split at h
  · next hr =>
    unfold ofCall? at h
    split at h
    · cases h
      have hle : callEntry.code.toNat ≤ code.toNat := hr.1
      have hlt := code.toNat_lt
      show callEntry.code + UInt16.ofNat (code.toNat - callEntry.code.toNat) = code
      apply UInt16.toNat_inj.mp
      rw [UInt16.toNat_add, UInt16.toNat_ofNat']
      omega
    · cases h
  · obtain ⟨i, hi, rfl⟩ := Option.map_eq_some_iff.mp h
    have hp := (List.findFinIdx?_eq_some_iff.mp hi).1
    exact beq_iff_eq.mp hp

theorem row_mnemonic (i : Fin table.length) :
    ofMnemonic? (table.get i).mnemonic = some (.row i) := by
  have hfind : table.findFinIdx? (·.mnemonic == (table.get i).mnemonic) = some i :=
    Names.findFinIdx?_eq_some mnemonics i
  rw [ofMnemonic?, Names.apart mnemonics _ (List.get_mem table i)]
  simp only [hfind, Option.map_some]

/-- Every opcode is found by its mnemonic. -/
theorem ofMnemonic?_mnemonic (op : Opcode) : ofMnemonic? op.mnemonic = some op := by
  cases op with
  | row i => exact row_mnemonic i
  | call n =>
    have hn : (UInt16.ofNat n).toNat = n :=
      UInt16.toNat_ofNat_of_lt (Nat.lt_trans n.isLt (by decide))
    have hread := Numeral.readWord_decimal (UInt16.ofNat n)
    rw [hn, Numeral.decimal, String.toList_ofList] at hread
    have hdigits : Numeral.isDigits (Nat.toDigits 10 n) = true := by
      simp only [Numeral.isDigits, Bool.and_eq_true, List.all_eq_true]
      exact ⟨by simp [Nat.toDigits_ne_nil], fun _ => Numeral.isDigit_of_mem_toDigits⟩
    have hstem : callEntry.mnemonic.toList.isPrefixOf? (mnemonic (.call n)).toList =
        some (Nat.toDigits 10 n) := by
      rw [List.isPrefixOf?_eq_some_iff_append_eq, mnemonic, String.toList_append, Numeral.decimal,
        String.toList_ofList]
    rw [ofMnemonic?, hstem]
    simp only [hdigits, if_true, hread, hn]
    exact dif_pos n.isLt

/-! ## Opcodes that code is built from -/

def reset : Opcode := (ofKind? .reset).get (by decide)

/-- Two rows of one kind are the same unless the kind is `generic`. -/
theorem eq_of_kind {op op' : Opcode} (hk : op.kind = op'.kind) (hg : op.kind ≠ .generic)
    (hc : op.kind ≠ .callFunction) : op = op' := by
  have h := ofKind?_kind hg hc
  rw [hk, ofKind?_kind (hk ▸ hg) (hk ▸ hc)] at h
  exact (Option.some.inj h).symm

@[simp] theorem kind_goto : goto.kind = .goto := by decide

@[simp] theorem kind_gotoIfFalse : gotoIfFalse.kind = .gotoIfFalse := by decide

@[simp] theorem kind_ret : ret.kind = .ret := by decide

@[simp] theorem kind_write : write.kind = .write := by decide

@[simp] theorem kind_reset : reset.kind = .reset := by decide

@[simp] theorem kind_math (m : MathOp) : (math m).kind = .math m := by
  cases m <;> decide

@[simp] theorem kind_call (n : Fin callCount) : (call n).kind = .callFunction := rfl

/-- The number of `CALL_FN_n` is the distance of its code from the first one. -/
theorem call_number (n : Fin callCount) :
    ofCall? ((call n).code - callEntry.code).toUInt32.toNat = some (.call n) := by
  have hn : (UInt16.ofNat n).toNat = n :=
    UInt16.toNat_ofNat_of_lt (Nat.lt_trans n.isLt (by decide))
  have hcode : (call n).code - callEntry.code = UInt16.ofNat n := by
    rw [code, UInt16.add_comm, UInt16.add_sub_cancel]
  rw [hcode, UInt16.toNat_toUInt32, hn]
  exact dif_pos n.isLt

theorem exists_call_of_ofCall? {n : Nat} {op : Opcode} (h : ofCall? n = some op) :
    ∃ i, op = .call i := by
  unfold ofCall? at h
  split at h
  · next hn => exact ⟨⟨n, hn⟩, (Option.some.inj h).symm⟩
  · cases h

end Opcode

namespace Instruction

theorem wellFormed_iff (i : Instruction) :
    i.wellFormed = true ↔ i.operands.length = i.kind.arity := by
  rw [wellFormed, beq_iff_eq, Opcode.arity_eq]
  rfl

theorem width_of_wellFormed {i : Instruction} (h : i.wellFormed = true) :
    i.width = i.opcode.width := by
  rw [wellFormed, beq_iff_eq] at h
  unfold width Opcode.width
  split
  · next heq =>
    rw [heq]
    rfl
  · rw [h]

/-- Only jumps have a target. -/
theorem target?_of_not_isJump {i : Instruction} (h : i.kind.isJump = false) :
    i.target? = none := by
  have hj : i.opcode.entry.isJump = false := (Opcode.isJump_eq i.opcode).trans h
  simp [target?, hj]

theorem target?_of_isJump {i : Instruction} (h : i.kind.isJump = true) :
    i.target? = i.operands.head?.map UInt16.toNat := by
  have hj : i.opcode.entry.isJump = true := (Opcode.isJump_eq i.opcode).trans h
  simp [target?, hj]

/-- A jump that has its operand has a target. -/
theorem exists_target? {i : Instruction} (hw : i.wellFormed = true) (hj : i.kind.isJump = true) :
    ∃ t, i.target? = some t := by
  have harity : i.kind.arity = 1 := by
    cases hk : i.kind <;> rw [hk] at hj <;> first | rfl | cases hj
  obtain ⟨v, hv⟩ := List.length_eq_one_iff.mp (((wellFormed_iff i).mp hw).trans harity)
  rw [target?_of_isJump hj, hv]
  exact ⟨v.toNat, rfl⟩

end Instruction

end MapScript
