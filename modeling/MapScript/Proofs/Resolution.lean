import MapScript.Proofs.Labels

/-!
# Linking is exact

Which of the errors linking reports is decided by the code alone, and so is what it puts in place of
a label:

* A label defined twice comes first, at its earliest second definition (`RepeatsFirst`).
* Otherwise the first operand with a fault (`Fault`) is reported, in order: one that names no label
  of the code, or one whose offset is too large.
* Otherwise there are instructions.  If the items have the right number of operands, each label
  becomes the offset of the first instruction behind it, or the end of the code (`Resolves`).

The first two rest on one another through the label table, which holds a label for each place where
one stands (`mem_labelsAt_iff`).
-/

namespace MapScript

open CodeItem

/-! ## Items -/

namespace CodeItem

def operands : CodeItem → List Operand
  | insn _ operands => operands
  | label _ => []

/-- The opcode and the operands of an instruction. -/
def insn? : CodeItem → Option (Opcode × List Operand)
  | insn opcode operands => some (opcode, operands)
  | label _ => none

/-- Whether the operands are as many as the opcode takes. -/
def wellFormed : CodeItem → Bool
  | insn opcode operands => operands.length == opcode.arity
  | label _ => true

theorem mem_label?_iff {items : List CodeItem} {name : String} :
    name ∈ items.filterMap label? ↔ .label name ∈ items := by
  rw [List.mem_filterMap]
  constructor
  · rintro ⟨item, hitem, h⟩
    cases item with
    | insn opcode operands => cases h
    | label name' =>
      cases h
      exact hitem
  · intro h
    exact ⟨_, h, rfl⟩

end CodeItem

namespace Linking

/-! ## Labels defined twice -/

/-- The earliest second definition of a label is one of `name`. -/
def RepeatsFirst (items : List CodeItem) (name : String) : Prop :=
  ∃ before after, items = before ++ .label name :: after ∧ .label name ∈ before ∧
    (before.filterMap label?).Nodup

theorem lookup_isSome_iff_mem {table : List (String × Nat)} {name : String} :
    (table.lookup name).isSome = true ↔ name ∈ table.map Prod.fst := by
  rw [List.lookup_isSome_iff, List.mem_map]
  constructor
  · rintro ⟨x, hx, he⟩
    exact ⟨x, hx, (beq_iff_eq.mp he).symm⟩
  · rintro ⟨x, hx, rfl⟩
    exact ⟨x, hx, beq_self_eq_true _⟩

/-- The label pass stops at the first label that stands further up, or in the table that it starts
with. -/
theorem labelTableFrom_eq_error {table : List (String × Nat)} (ht : (table.map Prod.fst).Nodup)
    {base : Nat} {items : List CodeItem} {e : Error} :
    labelTableFrom table base items = .error e ↔ ∃ before name after,
      items = before ++ .label name :: after ∧
      name ∈ before.filterMap label? ++ table.map Prod.fst ∧
      (before.filterMap label? ++ table.map Prod.fst).Nodup ∧ e = .duplicateLabel name := by
  induction items generalizing table base with
  | nil => simp [labelTableFrom]
  | cons item rest ih =>
    cases item with
    | insn opcode operands =>
      rw [labelTableFrom, ih ht]
      constructor
      · rintro ⟨before, name, after, rfl, h⟩
        exact ⟨.insn opcode operands :: before, name, after, rfl, h⟩
      · rintro ⟨before, name, after, hsplit, h⟩
        cases before with
        | nil => cases hsplit
        | cons item before =>
          cases hsplit
          exact ⟨before, name, after, rfl, h⟩
    | label name' =>
      rw [labelTableFrom]
      by_cases hd : name' ∈ table.map Prod.fst
      · rw [if_pos (lookup_isSome_iff_mem.mpr hd)]
        constructor
        · intro h
          cases h
          exact ⟨[], name', rest, rfl, by simpa using hd, by simpa using ht, rfl⟩
        · rintro ⟨before, name, after, hsplit, -, hn, rfl⟩
          cases before with
          | nil =>
            cases hsplit
            rfl
          | cons item before =>
            cases hsplit
            exact absurd (List.mem_append_right _ hd) (List.nodup_cons.mp hn).1
      · rw [if_neg fun h => hd (lookup_isSome_iff_mem.mp h),
          ih (by simpa using ⟨by simpa using hd, ht⟩)]
        -- the label moves from the code in front to the table
        have hperm : ∀ before : List CodeItem,
            (before.filterMap label? ++ ((name', base) :: table).map Prod.fst).Perm
              ((.label name' :: before).filterMap label? ++ table.map Prod.fst) :=
          fun before => List.perm_middle
        constructor
        · rintro ⟨before, name, after, rfl, hm, hn, rfl⟩
          exact ⟨.label name' :: before, name, after, rfl, (hperm before).mem_iff.mp hm,
            (hperm before).nodup_iff.mp hn, rfl⟩
        · rintro ⟨before, name, after, hsplit, hm, hn, rfl⟩
          cases before with
          | nil =>
            cases hsplit
            exact absurd (by simpa using hm) hd
          | cons item before =>
            cases hsplit
            exact ⟨before, name, after, rfl, (hperm before).mem_iff.mpr hm,
              (hperm before).nodup_iff.mpr hn, rfl⟩

theorem labelTable_eq_error {base : Nat} {items : List CodeItem} {e : Error} :
    labelTable base items = .error e ↔ ∃ name, RepeatsFirst items name ∧
      e = .duplicateLabel name := by
  rw [labelTable, labelTableFrom_eq_error (by simp)]
  simp only [List.map_nil, List.append_nil, mem_label?_iff]
  constructor
  · rintro ⟨before, name, after, hsplit, hm, hn, he⟩
    exact ⟨name, ⟨before, after, hsplit, hm, hn⟩, he⟩
  · rintro ⟨name, ⟨before, after, hsplit, hm, hn⟩, he⟩
    exact ⟨before, name, after, hsplit, hm, hn, he⟩

/-- Some label is defined twice if and only if there is an earliest second definition. -/
theorem exists_repeatsFirst_iff (items : List CodeItem) :
    (∃ name, RepeatsFirst items name) ↔ ¬ (items.filterMap label?).Nodup := by
  -- the label table decides between the two
  have hok : (∃ labels, labelTable 0 items = .ok labels) ↔ (items.filterMap label?).Nodup := by
    simp only [labelTable_eq_ok, exists_eq_left, List.map_reverse, List.nodup_reverse,
      map_fst_labelsAt]
  rw [← hok]
  cases ht : labelTable 0 items with
  | ok labels =>
    refine iff_of_false ?_ fun h => h ⟨labels, rfl⟩
    rintro ⟨name, hr⟩
    cases ht.symm.trans (labelTable_eq_error.mpr ⟨name, hr, rfl⟩)
  | error e =>
    obtain ⟨name, hr, -⟩ := labelTable_eq_error.mp ht
    exact iff_of_true ⟨name, hr⟩ (by simp)

/-! ## Operands that cannot be resolved -/

/-- Labels stand where the code in front of them ends. -/
theorem mem_labelsAt_iff {base : Nat} {items : List CodeItem} {name : String} {offset : Nat} :
    (name, offset) ∈ labelsAt base items ↔ ∃ before after,
      items = before ++ .label name :: after ∧ offset = base + totalWidth before := by
  constructor
  · intro h
    induction items generalizing base with
    | nil => cases h
    | cons item rest ih =>
      cases item with
      | label name' =>
        rcases List.mem_cons.mp h with he | h
        · cases he
          exact ⟨[], rest, rfl, rfl⟩
        · obtain ⟨before, after, rfl, rfl⟩ := ih h
          exact ⟨.label name' :: before, after, rfl, by simp [CodeItem.width]⟩
      | insn opcode operands =>
        obtain ⟨before, after, rfl, rfl⟩ := ih h
        refine ⟨.insn opcode operands :: before, after, rfl, ?_⟩
        rw [totalWidth_cons, CodeItem.width, Nat.add_assoc]
  · rintro ⟨before, after, rfl, rfl⟩
    rw [labelsAt_append]
    exact List.mem_append_right _ List.mem_cons_self

/-- Why an operand of `items` at `base` cannot be resolved. -/
inductive Fault (base : Nat) (items : List CodeItem) : Operand → Error → Prop
  | undefined {name : String} (missing : .label name ∉ items) :
      Fault base items (.label name) (.undefinedLabel name)
  /-- The label stands too far down for a word. -/
  | overflow {name : String} {before after : List CodeItem}
      (stands : items = before ++ .label name :: after)
      (large : 0xFFFF < base + totalWidth before) :
      Fault base items (.label name) (.offsetOverflow (base + totalWidth before))

section

variable {base : Nat} {items : List CodeItem} (hn : (items.filterMap label?).Nodup)
include hn

/-- The label table finds the offset at which a label stands. -/
theorem lookup_labelsAt_eq_some {name : String} {offset : Nat} :
    (labelsAt base items).reverse.lookup name = some offset ↔ ∃ before after,
      items = before ++ .label name :: after ∧ offset = base + totalWidth before := by
  have hkeys : ((labelsAt base items).reverse.map Prod.fst).Nodup := by
    rw [List.map_reverse, List.nodup_reverse, map_fst_labelsAt]
    exact hn
  rw [← mem_labelsAt_iff, ← List.mem_reverse]
  exact ⟨mem_of_lookup, lookup_of_mem hkeys⟩

theorem linkOperand_eq_error {o : Operand} {e : Error} :
    linkOperand (labelsAt base items).reverse o = .error e ↔ Fault base items o e := by
  cases o with
  | value v => exact iff_of_false (by simp [linkOperand]) (by intro h; cases h)
  | label name =>
    rw [linkOperand]
    cases hl : (labelsAt base items).reverse.lookup name with
    | none =>
      have hmissing : .label name ∉ items := by
        intro hm
        obtain ⟨before, after, rfl⟩ := List.append_of_mem hm
        rw [(lookup_labelsAt_eq_some hn).mpr ⟨before, after, rfl, rfl⟩] at hl
        cases hl
      constructor
      · intro h
        cases h
        exact .undefined hmissing
      · intro h
        cases h with
        | undefined => rfl
        | overflow stands => exact absurd (by simp [stands]) hmissing
    | some offset =>
      obtain ⟨before, after, hsplit, rfl⟩ := (lookup_labelsAt_eq_some hn).mp hl
      by_cases hlt : base + totalWidth before < 0x10000
      · simp only [hlt, if_true]
        refine iff_of_false (by simp) fun h => ?_
        cases h with
        | undefined missing => exact missing (by simp [hsplit])
        | overflow stands large =>
          rw [(lookup_labelsAt_eq_some hn).mpr ⟨_, _, stands, rfl⟩, Option.some.injEq] at hl
          omega
      · simp only [hlt, if_false]
        constructor
        · intro h
          cases h
          exact .overflow hsplit (by omega)
        · intro h
          cases h with
          | undefined missing => exact absurd (by simp [hsplit]) missing
          | overflow stands large =>
            rw [(lookup_labelsAt_eq_some hn).mpr ⟨_, _, stands, rfl⟩, Option.some.injEq] at hl
            rw [hl]

end

/-- Linking stops at the first operand that cannot be resolved. -/
theorem linkAll_eq_error {labels : List (String × Nat)} {items : List CodeItem} {e : Error} :
    linkAll labels items = .error e ↔
      FirstFault (fun o e => linkOperand labels o = .error e) (items.flatMap operands) e := by
  induction items with
  | nil => exact iff_of_false nofun firstFault_nil
  | cons item rest ih =>
    cases item with
    | label name => exact ih
    | insn opcode operands =>
      rw [linkAll, bind_eq_error, List.flatMap_cons, firstFault_append, ← mapM_eq_error_iff, ← ih]
      refine or_congr_right ?_
      rw [← exists_ok_iff_of_firstFault fun _ => mapM_eq_error_iff]
      constructor
      · rintro ⟨words, hw, h⟩
        rcases bind_eq_error.mp h with h | ⟨_, -, h⟩
        · exact ⟨⟨words, hw⟩, h⟩
        · cases h
      · rintro ⟨⟨words, hw⟩, h⟩
        exact ⟨words, hw, bind_eq_error.mpr (.inl h)⟩

theorem link_eq_error_of_nodup {base : Nat} {items : List CodeItem}
    (hn : (items.filterMap label?).Nodup) {e : Error} :
    link base items = .error e ↔ FirstFault (Fault base items) (items.flatMap operands) e := by
  have htable : labelTable base items = .ok (labelsAt base items).reverse := by
    rw [labelTable_eq_ok, List.map_reverse, List.nodup_reverse, map_fst_labelsAt]
    exact ⟨rfl, hn⟩
  have hfault : (fun o e => linkOperand (labelsAt base items).reverse o = .error e) =
      Fault base items := by
    funext o e
    exact propext (linkOperand_eq_error hn)
  rw [link, htable, ← hfault, ← linkAll_eq_error]
  rfl

/-- Only a label that is defined twice is reported as such. -/
theorem link_eq_duplicateLabel {base : Nat} {items : List CodeItem} {name : String} :
    link base items = .error (.duplicateLabel name) ↔ RepeatsFirst items name := by
  constructor
  · intro h
    by_cases hn : (items.filterMap label?).Nodup
    · obtain ⟨_, _, _, -, -, hf⟩ := (link_eq_error_of_nodup hn).mp h
      cases hf
    · rw [link, bind_eq_error] at h
      rcases h with h | ⟨labels, hl, -⟩
      · obtain ⟨name', hr, he⟩ := labelTable_eq_error.mp h
        cases he
        exact hr
      · obtain ⟨rfl, hn'⟩ := labelTable_eq_ok.mp hl
        rw [List.map_reverse, List.nodup_reverse, map_fst_labelsAt] at hn'
        exact absurd hn' hn
  · intro h
    rw [link, bind_eq_error]
    exact .inl (labelTable_eq_error.mpr ⟨name, h, rfl⟩)

/-! ## What labels become -/

/-- The word in place of an operand of `items`, where linking gives `code` at `base`: the operand
itself, or the offset of the first instruction behind the label that it names. -/
def Resolves (base : Nat) (items : List CodeItem) (code : List Instruction) :
    Operand → UInt16 → Prop
  | .value v, w => w = v
  | .label name, w => ∃ before after, items = before ++ .label name :: after ∧
      w.toNat = (offsets base code)[(before.filterMap insn?).length]?.getD (codeEnd base code)

theorem forall₂_of_linkAll {labels : List (String × Nat)} {items : List CodeItem}
    {code : List Instruction} (h : linkAll labels items = .ok code) :
    List.Forall₂ (fun x i => i.opcode = x.1 ∧
      List.Forall₂ (fun o w => linkOperand labels o = .ok w) x.2 i.operands)
      (items.filterMap insn?) code := by
  induction items generalizing code with
  | nil =>
    cases h
    exact .nil
  | cons item rest ih =>
    cases item with
    | label name => exact ih h
    | insn opcode operands =>
      obtain ⟨words, more, hw, hm, rfl⟩ := linkAll_insn.mp h
      exact .cons ⟨rfl, mapM_eq_ok_iff.mp hw⟩ (ih hm)

/-- Items with the right number of operands are linked to such instructions. -/
theorem wellFormed_of_linkAll {labels : List (String × Nat)} {items : List CodeItem}
    {code : List Instruction} (h : linkAll labels items = .ok code)
    (hw : ∀ item ∈ items, item.wellFormed = true) : ∀ i ∈ code, i.wellFormed = true := by
  induction items generalizing code with
  | nil =>
    cases h
    simp
  | cons item rest ih =>
    have hrest := fun item' hm => hw item' (List.mem_cons_of_mem _ hm)
    cases item with
    | label name => exact ih h hrest
    | insn opcode operands =>
      obtain ⟨words, more, hwords, hm, rfl⟩ := linkAll_insn.mp h
      refine List.forall_mem_cons.mpr ⟨?_, ih hm hrest⟩
      have hlen := (mapM_eq_ok_iff.mp hwords).length_eq
      have hitem := hw _ List.mem_cons_self
      rw [CodeItem.wellFormed, beq_iff_eq] at hitem
      rw [Instruction.wellFormed, beq_iff_eq]
      exact hlen.symm.trans hitem

theorem offsets_append (base : Nat) (xs ys : List Instruction) :
    offsets base (xs ++ ys) = offsets base xs ++ offsets (base + codeWidth xs) ys := by
  induction xs generalizing base with
  | nil => rfl
  | cons i xs ih =>
    rw [List.cons_append, offsets, ih, offsets, codeWidth_cons, Nat.add_assoc]
    rfl

/-- The offset behind the first instructions of code is that of the next one, or the end. -/
theorem offsets_getD (base : Nat) (xs ys : List Instruction) :
    (offsets base (xs ++ ys))[xs.length]?.getD (codeEnd base (xs ++ ys)) =
      base + codeWidth xs := by
  rw [offsets_append, List.getElem?_append_right (Nat.le_of_eq (length_offsets _ _)),
    length_offsets, Nat.sub_self]
  cases ys with
  | nil => simp [offsets, codeEnd_eq]
  | cons i ys => rfl

/-- The room in front of a label before linking is the room in front of it afterwards. -/
theorem stands_of_linkAll {labels : List (String × Nat)} {base : Nat}
    {before after : List CodeItem} {name : String} {code : List Instruction}
    (h : linkAll labels (before ++ .label name :: after) = .ok code)
    (hw : ∀ i ∈ code, i.wellFormed = true) :
    base + totalWidth before =
      (offsets base code)[(before.filterMap insn?).length]?.getD (codeEnd base code) := by
  obtain ⟨c1, c2, h1, -, rfl⟩ := linkAll_append.mp h
  have hlen := (forall₂_of_linkAll h1).length_eq
  rw [hlen, offsets_getD, totalWidth_of_linkAll h1 fun i hi => hw i (List.mem_append_left _ hi)]

theorem resolves_of_link {base : Nat} {items : List CodeItem} {code : List Instruction}
    (h : link base items = .ok code) (hw : ∀ item ∈ items, item.wellFormed = true) :
    List.Forall₂ (fun x i => i.opcode = x.1 ∧
      List.Forall₂ (Resolves base items code) x.2 i.operands) (items.filterMap insn?) code := by
  obtain ⟨labels, hl, hc⟩ := link_eq_ok.mp h
  obtain ⟨rfl, hn⟩ := labelTable_eq_ok.mp hl
  rw [List.map_reverse, List.nodup_reverse, map_fst_labelsAt] at hn
  have hcode := wellFormed_of_linkAll hc hw
  have hoperand : ∀ o w, linkOperand (labelsAt base items).reverse o = .ok w →
      Resolves base items code o w := by
    intro o w ho
    cases o with
    | value v =>
      cases ho
      rfl
    | label name =>
      obtain ⟨offset, hlt, hlook, rfl⟩ := linkOperand_label.mp ho
      obtain ⟨before, after, rfl, rfl⟩ := (lookup_labelsAt_eq_some hn).mp hlook
      refine ⟨before, after, rfl, ?_⟩
      rw [UInt16.toNat_ofNat', Nat.mod_eq_of_lt hlt]
      exact stands_of_linkAll hc hcode
  exact (forall₂_of_linkAll hc).imp fun x i hx => ⟨hx.1, hx.2.imp hoperand⟩

/-- **Linking is exact.**  A label defined twice is reported at its earliest second definition.
Otherwise the first operand with a fault is reported, and without one there are instructions.  Of
items with the right number of operands these are the instructions in order, where values are
unchanged and labels become the offset of the first instruction behind them, or the end. -/
theorem link_exact (base : Nat) (items : List CodeItem) :
    (∀ name, link base items = .error (.duplicateLabel name) ↔ RepeatsFirst items name) ∧
    ((∃ name, link base items = .error (.duplicateLabel name)) ↔
      ¬ (items.filterMap label?).Nodup) ∧
    ((items.filterMap label?).Nodup →
      (∀ e, link base items = .error e ↔
        FirstFault (Fault base items) (items.flatMap operands) e) ∧
      ((∃ code, link base items = .ok code) ↔
        ∀ o ∈ items.flatMap operands, ∀ e, ¬ Fault base items o e)) ∧
    ∀ code, link base items = .ok code → (∀ item ∈ items, item.wellFormed = true) →
      List.Forall₂ (fun x i => i.opcode = x.1 ∧
        List.Forall₂ (Resolves base items code) x.2 i.operands) (items.filterMap insn?) code := by
  refine ⟨fun name => link_eq_duplicateLabel, ?_,
    fun hn => ⟨fun e => link_eq_error_of_nodup hn, ?_⟩, fun code => resolves_of_link⟩
  · simp only [link_eq_duplicateLabel]
    exact exists_repeatsFirst_iff items
  · exact exists_ok_iff_of_firstFault fun e => link_eq_error_of_nodup hn

/-- Two labels in front of a call, with a jump back to one of them and a jump to the end. -/
def crossing : List CodeItem :=
  [.label "top", .label "again", .bare (.call ⟨20, by decide⟩), .insn .goto [.label "end"],
    .insn .goto [.label "again"], .label "end"]

theorem link_exact_crossing : ∃ code, link 0x10 crossing = .ok code ∧
    List.Forall₂ (fun x i => i.opcode = x.1 ∧
      List.Forall₂ (Resolves 0x10 crossing code) x.2 i.operands)
      (crossing.filterMap insn?) code ∧
    ∀ o ∈ crossing.flatMap operands, ∀ e, ¬ Fault 0x10 crossing o e := by
  have hcode : link 0x10 crossing =
      .ok [⟨.call ⟨20, by decide⟩, []⟩, ⟨.goto, [0x15]⟩, ⟨.goto, [0x10]⟩] := by decide +kernel
  obtain ⟨-, -, hlinked, hresolved⟩ := link_exact 0x10 crossing
  exact ⟨_, hcode, hresolved _ hcode (by decide), (hlinked (by decide)).2.mp ⟨_, hcode⟩⟩

end Linking

end MapScript
