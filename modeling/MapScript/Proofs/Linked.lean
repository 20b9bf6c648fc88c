import MapScript.Proofs.Lowered
import MapScript.Script.Code

/-!
# What linking does

`labelsAt base items` lists the labels of code with their offsets.  The label table holds exactly
these, and exists if and only if no label is defined twice:

    labelTable base items = .ok labels ↔
      labels = (labelsAt base items).reverse ∧ the names in it are distinct   (labelTable_eq_ok)

Linking with a given table goes item by item (`linkAll_append`), keeps opcodes (`map_opcode`), and
puts the offset of a label in place of its name (`linkAll_jump`).  `build_eq_ok` takes the
building of a script apart.
-/

namespace MapScript

/-! ## Results -/

theorem bind_eq_ok {ε α β : Type} {x : Except ε α} {f : α → Except ε β} {b : β} :
    x >>= f = .ok b ↔ ∃ a, x = .ok a ∧ f a = .ok b := by
  cases x with
  | error e =>
    constructor
    · intro h
      cases h
    · rintro ⟨a, h, -⟩
      cases h
  | ok a =>
    constructor
    · intro h
      exact ⟨a, rfl, h⟩
    · rintro ⟨a', h, hb⟩
      cases h
      exact hb

theorem mapError_eq_ok {ε ε' α : Type} {x : Except ε α} {f : ε → ε'} {a : α} :
    x.mapError f = .ok a ↔ x = .ok a := by
  cases x with
  | error e =>
    constructor
    · intro h
      cases h
    · intro h
      cases h
  | ok a' =>
    constructor
    · intro h
      cases h
      rfl
    · intro h
      cases h
      rfl

theorem bind_eq_error {ε α β : Type} {x : Except ε α} {f : α → Except ε β} {e : ε} :
    x >>= f = .error e ↔ x = .error e ∨ ∃ a, x = .ok a ∧ f a = .error e := by
  cases x with
  | error e' =>
    constructor
    · intro h
      cases h
      exact .inl rfl
    · rintro (h | ⟨a, h, -⟩)
      · cases h
        rfl
      · cases h
  | ok a =>
    constructor
    · intro h
      exact .inr ⟨a, rfl, h⟩
    · rintro (h | ⟨a', h, he⟩)
      · cases h
      · cases h
        exact he

theorem mapError_eq_error {ε ε' α : Type} {x : Except ε α} {f : ε → ε'} {e : ε'} :
    x.mapError f = .error e ↔ ∃ e', x = .error e' ∧ f e' = e := by
  cases x with
  | error e' =>
    constructor
    · intro h
      exact ⟨e', rfl, Except.error.inj h⟩
    · rintro ⟨e'', h, rfl⟩
      cases h
      rfl
  | ok a =>
    constructor
    · intro h
      cases h
    · rintro ⟨e', h, -⟩
      cases h

/-! ## First faults -/

/-- The first of `xs` that has a fault has the fault `e`. -/
def FirstFault {α ε : Type} (fault : α → ε → Prop) (xs : List α) (e : ε) : Prop :=
  ∃ before x after, xs = before ++ x :: after ∧ (∀ y ∈ before, ∀ e', ¬ fault y e') ∧ fault x e

section

variable {α β ε : Type} {fault : α → ε → Prop} {x : α} {xs ys : List α} {e : ε}

theorem firstFault_nil : ¬ FirstFault fault [] e := by
  rintro ⟨before, x, after, h, -⟩
  simp at h

theorem firstFault_cons : FirstFault fault (x :: xs) e ↔
    fault x e ∨ (∀ e', ¬ fault x e') ∧ FirstFault fault xs e := by
  constructor
  · rintro ⟨before, y, after, h, hb, hy⟩
    cases before with
    | nil =>
      cases h
      exact .inl hy
    | cons z before =>
      cases h
      exact .inr ⟨hb x List.mem_cons_self, before, y, after, rfl,
        fun z hz => hb z (List.mem_cons_of_mem _ hz), hy⟩
  · rintro (hx | ⟨hx, before, y, after, rfl, hb, hy⟩)
    · exact ⟨[], x, xs, rfl, by simp, hx⟩
    · exact ⟨x :: before, y, after, rfl, List.forall_mem_cons.mpr ⟨hx, hb⟩, hy⟩

theorem firstFault_cons_of_fault {e₀ : ε} (h : ∀ e', fault x e' ↔ e' = e₀) :
    FirstFault fault (x :: xs) e ↔ e = e₀ := by
  rw [firstFault_cons, h]
  refine or_iff_left ?_
  rintro ⟨hnone, -⟩
  exact hnone e₀ ((h e₀).mpr rfl)

theorem firstFault_cons_of_none (h : ∀ e', ¬ fault x e') :
    FirstFault fault (x :: xs) e ↔ FirstFault fault xs e := by
  rw [firstFault_cons, or_iff_right (h e), and_iff_right h]

theorem firstFault_append : FirstFault fault (xs ++ ys) e ↔
    FirstFault fault xs e ∨ (∀ x ∈ xs, ∀ e', ¬ fault x e') ∧ FirstFault fault ys e := by
  induction xs with
  | nil => simp [firstFault_nil]
  | cons x xs ih =>
    rw [List.cons_append, firstFault_cons, firstFault_cons, ih, List.forall_mem_cons]
    tauto

/-- If anything has a fault, there is a first one. -/
theorem exists_firstFault_iff : (∃ e, FirstFault fault xs e) ↔ ∃ x ∈ xs, ∃ e, fault x e := by
  induction xs with
  | nil => simp [firstFault_nil]
  | cons x xs ih =>
    simp only [firstFault_cons, exists_or, exists_and_left, ih, List.mem_cons, exists_eq_or_imp]
    by_cases hx : ∃ e, fault x e
    · exact iff_of_true (.inl hx) (.inl hx)
    · exact or_congr_right (and_iff_right fun e' h => hx ⟨e', h⟩)

/-- What stops at the first fault gets through if there is none. -/
theorem exists_ok_iff_of_firstFault {r : Except ε β}
    (h : ∀ e, r = .error e ↔ FirstFault fault xs e) :
    (∃ b, r = .ok b) ↔ ∀ x ∈ xs, ∀ e, ¬ fault x e := by
  cases hr : r with
  | ok b =>
    refine iff_of_true ⟨b, rfl⟩ fun x hx e he => ?_
    obtain ⟨e', he'⟩ := exists_firstFault_iff.mpr ⟨x, hx, e, he⟩
    cases hr.symm.trans ((h e').mpr he')
  | error e =>
    refine iff_of_false nofun fun hnone => ?_
    obtain ⟨x, hx, e', he'⟩ := exists_firstFault_iff.mp ⟨e, (h e).mp hr⟩
    exact hnone x hx e' he'

/-- A list is worked through up to the first failure. -/
theorem mapM_eq_error_iff {f : α → Except ε β} :
    xs.mapM f = .error e ↔ FirstFault (fun x e => f x = .error e) xs e := by
  induction xs with
  | nil => simp [firstFault_nil, pure, Except.pure]
  | cons x xs ih =>
    rw [List.mapM_cons, bind_eq_error, firstFault_cons, ← ih]
    refine or_congr_right ?_
    constructor
    · rintro ⟨b, hb, h⟩
      refine ⟨fun e' he' => (nomatch hb.symm.trans he'), ?_⟩
      rcases bind_eq_error.mp h with h | ⟨_, -, h⟩
      · exact h
      · cases h
    · rintro ⟨hx, h⟩
      cases hf : f x with
      | error e' => exact absurd hf (hx e')
      | ok b => exact ⟨b, rfl, bind_eq_error.mpr (.inl h)⟩

theorem mapM_eq_ok_iff {f : α → Except ε β} {bs : List β} :
    xs.mapM f = .ok bs ↔ List.Forall₂ (fun x b => f x = .ok b) xs bs := by
  induction xs generalizing bs with
  | nil =>
    constructor
    · intro h
      cases h
      exact .nil
    · intro h
      cases h
      rfl
  | cons x xs ih =>
    rw [List.mapM_cons, bind_eq_ok]
    constructor
    · rintro ⟨b, hb, h⟩
      obtain ⟨bs', hbs, h⟩ := bind_eq_ok.mp h
      cases h
      exact .cons hb (ih.mp hbs)
    · intro h
      cases h with
      | cons hb hbs => exact ⟨_, hb, bind_eq_ok.mpr ⟨_, ih.mpr hbs, rfl⟩⟩

end

/-! ## Widths -/

/-- The words that instructions take. -/
def codeWidth : List Instruction → Nat
  | [] => 0
  | i :: code => i.width + codeWidth code

@[simp] theorem codeWidth_nil : codeWidth [] = 0 := rfl

@[simp] theorem codeWidth_cons (i : Instruction) (code : List Instruction) :
    codeWidth (i :: code) = i.width + codeWidth code := rfl

@[simp] theorem codeWidth_append (xs ys : List Instruction) :
    codeWidth (xs ++ ys) = codeWidth xs + codeWidth ys := by
  induction xs with
  | nil => exact (Nat.zero_add _).symm
  | cons i xs ih =>
    rw [List.cons_append, codeWidth_cons, codeWidth_cons, ih]
    omega

theorem codeEnd_eq (base : Nat) (code : List Instruction) :
    codeEnd base code = base + codeWidth code := by
  induction code generalizing base with
  | nil => rfl
  | cons i code ih =>
    rw [codeEnd, ih, codeWidth_cons]
    omega

namespace CodeItem

/-- The words that code with labels takes. -/
def totalWidth : List CodeItem → Nat
  | [] => 0
  | item :: items => item.width + totalWidth items

def opcode? : CodeItem → Option Opcode
  | insn opcode _ => some opcode
  | label _ => none

@[simp] theorem totalWidth_nil : totalWidth [] = 0 := rfl

@[simp] theorem totalWidth_cons (item : CodeItem) (items : List CodeItem) :
    totalWidth (item :: items) = item.width + totalWidth items := rfl

@[simp] theorem totalWidth_append (xs ys : List CodeItem) :
    totalWidth (xs ++ ys) = totalWidth xs + totalWidth ys := by
  induction xs with
  | nil => exact (Nat.zero_add _).symm
  | cons item xs ih =>
    rw [List.cons_append, totalWidth_cons, totalWidth_cons, ih]
    omega

end CodeItem

namespace Linking

open CodeItem

/-! ## Labels -/

/-- The labels of code that starts at `base`, with their offsets. -/
def labelsAt (base : Nat) : List CodeItem → List (String × Nat)
  | [] => []
  | .label name :: rest => (name, base) :: labelsAt base rest
  | .insn opcode _ :: rest => labelsAt (base + opcode.width) rest

theorem labelsAt_append (base : Nat) (xs ys : List CodeItem) :
    labelsAt base (xs ++ ys) = labelsAt base xs ++ labelsAt (base + totalWidth xs) ys := by
  induction xs generalizing base with
  | nil => rfl
  | cons x xs ih =>
    cases x with
    | label name => simp [labelsAt, ih, CodeItem.width]
    | insn opcode operands => simp [labelsAt, ih, CodeItem.width, Nat.add_assoc]

theorem labelsAt_ofInstruction (base : Nat) (code : List Instruction) :
    labelsAt base (code.map .ofInstruction) = [] := by
  induction code generalizing base with
  | nil => rfl
  | cons i code ih => exact ih _

theorem labelTableFrom_eq_ok (before : List (String × Nat)) (hb : (before.map Prod.fst).Nodup)
    (base : Nat) (items : List CodeItem) (labels : List (String × Nat)) :
    labelTableFrom before base items = .ok labels ↔
      labels = (labelsAt base items).reverse ++ before ∧ (labels.map Prod.fst).Nodup := by
  induction items generalizing before base with
  | nil =>
    simp only [labelTableFrom, labelsAt, Except.ok.injEq, List.reverse_nil, List.nil_append]
    constructor
    · rintro rfl
      exact ⟨rfl, hb⟩
    · exact fun h => h.1.symm
  | cons item rest ih =>
    cases item with
    | insn opcode operands => exact ih before hb _
    | label name =>
      rw [labelTableFrom, labelsAt]
      split
      · next hd =>
        constructor
        · intro h
          cases h
        · rintro ⟨rfl, hn⟩
          -- the name stands before already
          obtain ⟨offset, ho⟩ := Option.isSome_iff_exists.mp hd
          obtain ⟨l1, l2, rfl, -⟩ := List.lookup_eq_some_iff.mp ho
          simp [List.nodup_append] at hn
      · next hd =>
        have hname : name ∉ before.map Prod.fst := by
          intro hm
          obtain ⟨x, hx, rfl⟩ := List.mem_map.mp hm
          exact hd (List.lookup_isSome_iff.mpr ⟨x, hx, by simp⟩)
        rw [ih _ (by simpa using ⟨by simpa using hname, hb⟩)]
        simp

/-- The label table exists if no label is defined twice, and holds the labels of the code. -/
theorem labelTable_eq_ok {base : Nat} {items : List CodeItem} {labels : List (String × Nat)} :
    labelTable base items = .ok labels ↔
      labels = (labelsAt base items).reverse ∧ (labels.map Prod.fst).Nodup := by
  rw [labelTable, labelTableFrom_eq_ok [] (by simp), List.append_nil]

theorem lookup_of_mem {labels : List (String × Nat)} (hn : (labels.map Prod.fst).Nodup)
    {name : String} {offset : Nat} (h : (name, offset) ∈ labels) :
    labels.lookup name = some offset := by
  obtain ⟨l1, l2, rfl⟩ := List.append_of_mem h
  rw [List.lookup_eq_some_iff]
  refine ⟨l1, l2, rfl, fun x hx => ?_⟩
  rw [bne_iff_ne]
  rintro rfl
  rw [List.map_append, List.map_cons, List.nodup_append] at hn
  exact hn.2.2 _ (List.mem_map_of_mem hx) _ List.mem_cons_self rfl

theorem mem_of_lookup {labels : List (String × Nat)} {name : String} {offset : Nat}
    (h : labels.lookup name = some offset) : (name, offset) ∈ labels := by
  obtain ⟨l1, l2, rfl, -⟩ := List.lookup_eq_some_iff.mp h
  simp

/-! ## Operands -/

theorem linkAll_insn {labels : List (String × Nat)} {opcode : Opcode} {operands : List Operand}
    {rest : List CodeItem} {code : List Instruction} :
    linkAll labels (.insn opcode operands :: rest) = .ok code ↔ ∃ words more,
      operands.mapM (linkOperand labels) = .ok words ∧ linkAll labels rest = .ok more ∧
        code = ⟨opcode, words⟩ :: more := by
  simp only [linkAll, bind_eq_ok]
  constructor
  · rintro ⟨words, hw, more, hm, h⟩
    exact ⟨words, more, hw, hm, (Except.ok.inj h).symm⟩
  · rintro ⟨words, more, hw, hm, rfl⟩
    exact ⟨words, hw, more, hm, rfl⟩

theorem linkAll_append {labels : List (String × Nat)} {xs ys : List CodeItem}
    {code : List Instruction} :
    linkAll labels (xs ++ ys) = .ok code ↔ ∃ c1 c2, linkAll labels xs = .ok c1 ∧
      linkAll labels ys = .ok c2 ∧ code = c1 ++ c2 := by
  induction xs generalizing code with
  | nil =>
    constructor
    · intro h
      exact ⟨[], code, rfl, h, rfl⟩
    · rintro ⟨c1, c2, h1, h2, rfl⟩
      cases h1
      exact h2
  | cons x xs ih =>
    cases x with
    | label name => exact ih
    | insn opcode operands =>
      rw [List.cons_append, linkAll_insn]
      constructor
      · rintro ⟨words, more, hw, hm, rfl⟩
        obtain ⟨c1, c2, h1, h2, rfl⟩ := ih.mp hm
        exact ⟨_, c2, linkAll_insn.mpr ⟨words, c1, hw, h1, rfl⟩, h2, rfl⟩
      · rintro ⟨c1, c2, h1, h2, rfl⟩
        obtain ⟨words, more, hw, hm, rfl⟩ := linkAll_insn.mp h1
        exact ⟨words, more ++ c2, hw, ih.mpr ⟨more, c2, hm, h2, rfl⟩, rfl⟩

theorem mapM_value (labels : List (String × Nat)) (words : List UInt16) :
    (words.map Operand.value).mapM (linkOperand labels) = .ok words := by
  induction words with
  | nil => rfl
  | cons w words ih =>
    rw [List.map_cons, List.mapM_cons, ih]
    rfl

/-- Code without labels is linked as it is. -/
theorem linkAll_ofInstruction (labels : List (String × Nat)) (code : List Instruction) :
    linkAll labels (code.map .ofInstruction) = .ok code := by
  induction code with
  | nil => rfl
  | cons i code ih => exact linkAll_insn.mpr ⟨_, _, mapM_value labels i.operands, ih, rfl⟩

theorem linkOperand_label {labels : List (String × Nat)} {name : String} {w : UInt16} :
    linkOperand labels (.label name) = .ok w ↔ ∃ offset < 0x10000,
      labels.lookup name = some offset ∧ w = UInt16.ofNat offset := by
  simp only [linkOperand]
  cases hl : labels.lookup name with
  | none => simp
  | some offset =>
    by_cases hlt : offset < 0x10000
    · simp only [hlt, if_true, Except.ok.injEq, Option.some.injEq]
      constructor
      · rintro rfl
        exact ⟨offset, hlt, rfl, rfl⟩
      · rintro ⟨_, _, rfl, rfl⟩
        rfl
    · simp only [hlt, if_false, reduceCtorEq, Option.some.injEq, false_iff]
      rintro ⟨_, h, rfl, -⟩
      exact hlt h

/-- A jump to a label becomes a jump to the offset of the label. -/
theorem linkAll_jump {labels : List (String × Nat)} {opcode : Opcode} {name : String}
    {code : List Instruction} :
    linkAll labels [.insn opcode [.label name]] = .ok code ↔ ∃ offset < 0x10000,
      labels.lookup name = some offset ∧ code = [⟨opcode, [UInt16.ofNat offset]⟩] := by
  simp only [linkAll_insn, List.mapM_cons, List.mapM_nil, bind_eq_ok, linkOperand_label]
  constructor
  · rintro ⟨words, more, ⟨w, ⟨offset, hlt, hl, rfl⟩, ws, hws, hw⟩, hmore, rfl⟩
    cases hws
    cases hw
    cases hmore
    exact ⟨offset, hlt, hl, rfl⟩
  · rintro ⟨offset, hlt, hl, rfl⟩
    exact ⟨_, _, ⟨_, ⟨offset, hlt, hl, rfl⟩, [], rfl, rfl⟩, rfl, rfl⟩

theorem map_opcode {labels : List (String × Nat)} {items : List CodeItem}
    {code : List Instruction} (h : linkAll labels items = .ok code) :
    code.map Instruction.opcode = items.filterMap CodeItem.opcode? := by
  induction items generalizing code with
  | nil =>
    cases h
    rfl
  | cons item rest ih =>
    cases item with
    | label name => exact ih h
    | insn opcode operands =>
      obtain ⟨words, more, -, hm, rfl⟩ := linkAll_insn.mp h
      rw [List.map_cons, ih hm]
      rfl

/-- Opcodes alone decide how much room code takes, if it has the right number of operands. -/
theorem totalWidth_of_opcodes {items : List CodeItem} {code : List Instruction}
    (h : items.filterMap CodeItem.opcode? = code.map Instruction.opcode)
    (hw : ∀ i ∈ code, i.wellFormed = true) : totalWidth items = codeWidth code := by
  induction items generalizing code with
  | nil =>
    obtain rfl : code = [] := List.map_eq_nil_iff.mp h.symm
    rfl
  | cons item items ih =>
    cases item with
    | label name => exact (Nat.zero_add _).trans (ih h hw)
    | insn opcode operands =>
      obtain ⟨i, more, rfl, hi, hm⟩ := List.map_eq_cons_iff.mp h.symm
      have hwidth := Instruction.width_of_wellFormed (hw i List.mem_cons_self)
      have hrest := ih hm.symm fun j hj => hw j (List.mem_cons_of_mem _ hj)
      rw [totalWidth_cons, codeWidth_cons, hrest, hwidth, hi]
      rfl

/-- Code takes the room that its items were given. -/
theorem totalWidth_of_linkAll {labels : List (String × Nat)} {items : List CodeItem}
    {code : List Instruction} (h : linkAll labels items = .ok code)
    (hw : ∀ i ∈ code, i.wellFormed = true) : totalWidth items = codeWidth code :=
  totalWidth_of_opcodes (map_opcode h).symm hw

theorem link_eq_ok {base : Nat} {items : List CodeItem} {code : List Instruction} :
    link base items = .ok code ↔ ∃ labels, labelTable base items = .ok labels ∧
      linkAll labels items = .ok code := by
  rw [link, bind_eq_ok]

end Linking

/-! ## Building a script -/

namespace Script

open Lowering Linking

theorem ofScript_eq_ok {stmts : List Stmt} {items : List CodeItem} :
    ofScript (withResets stmts) = .ok items ↔ ∃ n, Lowers 0 stmts items n := by
  unfold ofScript Lowers Emits
  rcases ofStmts 0 (withResets stmts) with ⟨⟨c, _ | e⟩, n⟩
  · constructor
    · intro h
      cases h
      exact ⟨n, rfl⟩
    · rintro ⟨m, h⟩
      cases h
      rfl
  · constructor
    · intro h
      cases h
    · rintro ⟨m, h⟩
      cases h

/-- A script is built if it has code and the code can be linked. -/
theorem build_eq_ok {start : Nat} {stmts : List Stmt} {code : List Instruction} :
    build start stmts = .ok code ↔ ∃ items n labels, Lowers 0 stmts items n ∧
      labelTable start items = .ok labels ∧ linkAll labels items = .ok code := by
  unfold build
  simp only [bind_eq_ok, mapError_eq_ok, ofScript_eq_ok, link_eq_ok]
  constructor
  · rintro ⟨items, ⟨n, hl⟩, labels, ht, hc⟩
    exact ⟨items, n, labels, hl, ht, hc⟩
  · rintro ⟨items, n, labels, hl, ht, hc⟩
    exact ⟨items, ⟨n, hl⟩, labels, ht, hc⟩

end Script

end MapScript
