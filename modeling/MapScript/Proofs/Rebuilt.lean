import MapScript.Proofs.Division
import MapScript.Proofs.Numeral

/-!
# The code of an outline's statements

The statements of an outline turn into its own code again, with labels in place of offsets
(`Outline.lowers_stmts`).  Two things follow.

* Building them gives the opcodes of the outline in its own order (`Outline.opcodes_items`),
  wherever its stretches came from.
* Of an outline that is laid out from the start of the code, they give the very instructions
  (`Outline.Laid.linkAll_items`), since every label stands again where jumps went.
-/

namespace MapScript

open Structured Recovery Lowering Linking CodeItem

/-! ## Items -/

/-- The label at an offset as an item of code. -/
def Program.labelItems (p : Program) (t : Nat) : List CodeItem :=
  if p.isLabelled t then [.label (labelAt t)] else []

/-- The number of condition labels that a phrase needs. -/
def Finish.conditions : Finish → Nat
  | branch _ _ => 1
  | _ => 0

namespace Stretch

/-- The code of a stretch behind its labels; `inner` is the code of its body. -/
def core (n : Nat) (inner : List CodeItem) (s : Stretch) : List CodeItem :=
  match s.finish with
  | .stmts _ => s.code.map .ofInstruction
  | .goto t => [.insn .goto [.label (labelAt t)]]
  | .branch _ _ => (s.init.map (·.1.insn)).map .ofInstruction ++
      [.insn .gotoIfFalse [.label (endLabel n)]] ++ inner ++ [.label (endLabel n)]

/-- The code of a stretch with labels in place of offsets. -/
def items (p : Program) (n : Nat) (inner : List CodeItem) (s : Stretch) : List CodeItem :=
  s.lines.flatMap (fun x => p.labelItems x.1.offset) ++ s.core n inner

end Stretch

namespace Outline

def conditions : Outline → Nat
  | nil => 0
  | cons s body rest => s.finish.conditions + body.conditions + rest.conditions

/-- The code of an outline, where condition labels are numbered from `n`. -/
def items (p : Program) (n : Nat) : Outline → List CodeItem
  | nil => []
  | cons s body rest =>
    s.items p n (body.items p (n + s.finish.conditions)) ++
      rest.items p (n + s.finish.conditions + body.conditions)

end Outline

/-! ## Statements of an outline -/

theorem lowers_labelsOf (p : Program) (n t : Nat) :
    Lowers n (p.labelsOf t) (p.labelItems t) n := by
  unfold Program.labelsOf Program.labelItems
  split
  · exact lowers_label.mpr ⟨rfl, rfl⟩
  · exact lowers_nil.mpr ⟨rfl, rfl⟩

theorem lowers_labels (p : Program) (n : Nat) (lines : List Numbered) :
    Lowers n (lines.flatMap fun x => p.labelsOf x.1.offset)
      (lines.flatMap fun x => p.labelItems x.1.offset) n := by
  induction lines with
  | nil => exact lowers_nil.mpr ⟨rfl, rfl⟩
  | cons x lines ih => exact lowers_append.mpr ⟨_, _, _, lowers_labelsOf p n x.1.offset, ih, rfl⟩

theorem lowers_grouped {n n' : Nat} {ss : List Stmt} {items : List CodeItem} :
    Lowers n (grouped ss) items n' ↔ Lowers n ss items n' := by
  unfold grouped
  split
  · rfl
  · rfl
  · exact lowers_block

namespace Stretch

variable {p : Program} {s : Stretch}

/-- The code ahead of a faithful branch. -/
theorem init_of_branch {c : Expr} {t : Nat} (hb : s.finish = .branch c t)
    (hf : s.finish.Faithful s.code) : ∃ load, ofExpr c = ⟨load.map .ofInstruction, none⟩ ∧
      s.init.map (·.1.insn) = ⟨.reset, []⟩ :: load ∧
      s.last.1.insn = ⟨.gotoIfFalse, [UInt16.ofNat t]⟩ ∧ t < 0x10000 := by
  rw [hb, code_eq] at hf
  obtain ⟨ht, load, hload, hcode⟩ := hf
  obtain ⟨hinit, hlast⟩ := List.append_inj' hcode rfl
  exact ⟨load, hload, hinit, (List.cons.inj hlast).1, ht⟩

/-- A faithful phrase ends in statements with its own code. -/
theorem lowers_emitted (hf : s.finish.Faithful s.code) {n n' : Nat} {body : List Stmt}
    {inner : List CodeItem} (hb : Lowers (n + s.finish.conditions) body inner n')
    (hn : s.finish.conditions = 0 → n' = n) :
    Lowers n (s.emitted p body) (s.items p n inner) n' := by
  have hcore : Lowers n (s.finish.emitted body) (s.core n inner) n' := by
    unfold core
    cases hfin : s.finish with
    | stmts ss =>
      obtain rfl := hn (by rw [hfin]; rfl)
      rw [hfin] at hf
      exact hf _
    | goto t =>
      obtain rfl := hn (by rw [hfin]; rfl)
      exact lowers_goto.mpr ⟨rfl, rfl⟩
    | branch c t =>
      obtain ⟨load, hload, hinit, -⟩ := init_of_branch hfin hf
      rw [hfin] at hb
      refine lowers_ifThen.mpr ⟨_, inner, hload, hb, ?_⟩
      rw [hinit]
      rfl
  refine lowers_append.mpr ⟨_, n, _, lowers_labels p n s.init, lowers_grouped.mpr
    (lowers_append.mpr ⟨_, n, _, lowers_labelsOf p n s.last.1.offset, hcore, rfl⟩), ?_⟩
  simp [items, lines]

end Stretch

namespace Outline

/-- **Statements of an outline have its code.** -/
theorem lowers_stmts {p : Program} {o : Outline} (hs : o.Shaped)
    (hf : ∀ s ∈ o.stretches, s.finish.Faithful s.code) (n : Nat) :
    Lowers n (o.stmts p) (o.items p n) (n + o.conditions) := by
  induction o generalizing n with
  | nil => exact lowers_nil.mpr ⟨rfl, rfl⟩
  | cons s body rest ihb ihr =>
    obtain ⟨hhollow, hbody, hrest⟩ := hs
    obtain ⟨hfs, hfb, hfr⟩ := forall_stretches_cons.mp hf
    have hb := ihb hbody hfb (n + s.finish.conditions)
    have hr := ihr hrest hfr (n + s.finish.conditions + body.conditions)
    have hn : s.finish.conditions = 0 → n + s.finish.conditions + body.conditions = n := by
      intro h0
      cases hfin : s.finish with
      | branch c t => rw [hfin] at h0; cases h0
      | _ =>
        rw [hfin] at hhollow
        obtain rfl : body = .nil := hhollow
        rfl
    have hc : n + (cons s body rest).conditions =
        n + s.finish.conditions + body.conditions + rest.conditions := by
      simp only [conditions]
      omega
    rw [hc]
    exact lowers_append.mpr ⟨_, _, _, Stretch.lowers_emitted hfs hb hn, hr, rfl⟩

end Outline

/-! ## Opcodes -/

theorem opcodes_ofInstruction (code : List Instruction) :
    (code.map .ofInstruction).filterMap opcode? = code.map Instruction.opcode := by
  induction code with
  | nil => rfl
  | cons i code ih =>
    rw [List.map_cons, List.map_cons, ← ih]
    rfl

theorem opcodes_labelItems (p : Program) (t : Nat) : (p.labelItems t).filterMap opcode? = [] := by
  unfold Program.labelItems
  split <;> rfl

theorem opcodes_labels (p : Program) (lines : List Numbered) :
    (lines.flatMap fun x => p.labelItems x.1.offset).filterMap opcode? = [] := by
  induction lines with
  | nil => rfl
  | cons x lines ih =>
    rw [List.flatMap_cons, List.filterMap_append, ih, opcodes_labelItems]
    rfl

theorem Stretch.opcodes_items {p : Program} {s : Stretch} (hf : s.finish.Faithful s.code) (n : Nat)
    {body : Outline} (hh : s.finish.Hollow body) {inner : List CodeItem}
    (hi : inner.filterMap opcode? = body.code.map Instruction.opcode) :
    (s.items p n inner).filterMap opcode? =
      s.code.map Instruction.opcode ++ body.code.map Instruction.opcode := by
  rw [items, List.filterMap_append, opcodes_labels, List.nil_append]
  unfold core
  cases hfin : s.finish with
  | stmts ss =>
    rw [hfin] at hh
    obtain rfl : body = .nil := hh
    simp only [opcodes_ofInstruction, Outline.code_nil, List.map_nil, List.append_nil]
  | goto t =>
    rw [hfin] at hh hf
    obtain rfl : body = .nil := hh
    rw [hf.2]
    rfl
  | branch c t =>
    obtain ⟨load, -, -, hlast, -⟩ := init_of_branch hfin hf
    simp only [List.filterMap_append, opcodes_ofInstruction, hi, code_eq, hlast, List.map_append]
    simp [opcode?]

/-- Opcodes stay in the order of the outline. -/
theorem Outline.opcodes_items {p : Program} {o : Outline} (hs : o.Shaped)
    (hf : ∀ s ∈ o.stretches, s.finish.Faithful s.code) (n : Nat) :
    (o.items p n).filterMap opcode? = o.code.map Instruction.opcode := by
  induction o generalizing n with
  | nil => rfl
  | cons s body rest ihb ihr =>
    obtain ⟨hhollow, hbody, hrest⟩ := hs
    obtain ⟨hfs, hfb, hfr⟩ := forall_stretches_cons.mp hf
    have hb := ihb hbody hfb (n + s.finish.conditions)
    have hr := ihr hrest hfr (n + s.finish.conditions + body.conditions)
    rw [items, List.filterMap_append, Stretch.opcodes_items hfs n hhollow hb, hr]
    simp

end MapScript
