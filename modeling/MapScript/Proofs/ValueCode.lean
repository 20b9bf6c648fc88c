import MapScript.Proofs.Canonical

/-!
# The code of recovered values

Code that only computes values completes no statement, and the expressions that it leaves on the
stack stand for exactly that code: lowered from the bottom of the stack to the top, they turn into
the instructions that they were recovered from, one for one.

One instruction makes a single expression out of those that it takes, with its own item behind their
code (`exists_operation_of_recovers`).  So the code of the stack grows by that item
(`ofExprs_of_recovers`), and over a run by all of them (`ofExprs_of_run_recoverAll`).
-/

namespace MapScript.Recovery

open Lowering

/-- The effect of several instructions, each with its line. -/
def recoverAll : List (Instruction × Nat) → StackM (List Stmt)
  | [] => return []
  | (i, line) :: rest => do
    let ss ← recover i line
    let more ← recoverAll rest
    return ss ++ more

/-! ## One instruction -/

/-- An instruction that leaves a value completes no statement.  The value that it puts in place of
those that it takes has their code, with the instruction behind it. -/
theorem exists_operation_of_recovers {i : Instruction} (hw : i.wellFormed = true)
    (hv : i.isValue = true) {s s' : ValueStack} {ss : List Stmt} (h : Recovers i s ss s') :
    ss = [] ∧ ∃ args e below, s = args.reverse ++ below ∧ s' = e :: below ∧
      ofExpr e = ofExprs args ++ .emit (.ofInstruction i) := by
  cases h with
  | idle hk =>
    rcases hk with hk | hk
    · rw [Instruction.isValue, hk] at hv
      cases hv
    · rw [Instruction.isJump_of_isValue hv] at hk
      cases hk
  | reset hk | write hk | callFunction hk | ret hk =>
    rw [Instruction.isValue, hk] at hv
    cases hv
  | wait hwait => exact absurd hwait (Instruction.opcode_ne_wait_of_isValue hv)
  | call hk _ hres =>
    rw [Instruction.isValue, hk, hres] at hv
    cases hv
  | push hk =>
    obtain ⟨op, v, hop, rfl⟩ := Instruction.eq_mk_of_push hw hk
    exact ⟨rfl, [], _, s, rfl, rfl, ofExpr_loaded hop v⟩
  | @unary below e u hk =>
    refine ⟨rfl, [e], _, below, rfl, rfl, ?_⟩
    rw [Instruction.eq_mk_of_math hw hk, ofExpr, ofExprs_singleton]
    rfl
  | @binary below x y b m hk hb =>
    refine ⟨rfl, [x, y], _, below, rfl, rfl, ?_⟩
    rw [Instruction.eq_mk_of_math hw hk]
    simp [ofExpr, ofExprs, hb, Fragment.append_assoc, CodeItem.ofInstruction, CodeItem.bare]
  | @value below args hk hlen hres =>
    have hf := Opcode.ofFunction?_of_kind hk
    refine ⟨rfl, args, _, below, rfl, rfl, ?_⟩
    rw [callOf, ofExpr_function (Expr.path?_path _ _) (Opcode.not_memory_of_ofFunction? hf) hf hres,
      applied, if_pos hlen, Instruction.eq_mk_of_generic hw hk]
    rfl

/-- The code of the stack grows by the instruction. -/
theorem ofExprs_of_recovers {i : Instruction} (hw : i.wellFormed = true) (hv : i.isValue = true)
    {s s' : ValueStack} {ss : List Stmt} (h : Recovers i s ss s') :
    ss = [] ∧ ofExprs s'.reverse = ofExprs s.reverse ++ .emit (.ofInstruction i) := by
  obtain ⟨rfl, args, e, below, rfl, rfl, he⟩ := exists_operation_of_recovers hw hv h
  refine ⟨rfl, ?_⟩
  rw [List.reverse_cons, List.reverse_append, List.reverse_reverse, ofExprs_append, ofExprs_append,
    ofExprs_singleton, he, Fragment.append_assoc]

/-! ## Runs -/

/-- The code of the stack grows by all instructions of a run. -/
theorem ofExprs_of_run_recoverAll {code : List (Instruction × Nat)}
    (hw : ∀ x ∈ code, x.1.wellFormed = true) (hv : ∀ x ∈ code, x.1.isValue = true)
    {s s' : ValueStack} {ss : List Stmt} (h : (recoverAll code).run s = (.ok ss, s')) :
    ss = [] ∧ ofExprs s'.reverse =
      ofExprs s.reverse ++ ⟨code.map fun x => .ofInstruction x.1, none⟩ := by
  induction code generalizing s ss with
  | nil =>
    cases h
    exact ⟨rfl, (Fragment.append_empty _).symm⟩
  | cons x code ih =>
    obtain ⟨hwx, hw⟩ := List.forall_mem_cons.mp hw
    obtain ⟨hvx, hv⟩ := List.forall_mem_cons.mp hv
    rw [recoverAll] at h
    obtain ⟨ss1, s1, hx, h⟩ := run_bind_eq_ok h
    obtain ⟨ss2, s2, hcode, h⟩ := run_bind_eq_ok h
    cases h
    obtain ⟨rfl, hs1⟩ := ofExprs_of_recovers hwx hvx (recovers_of_run hx)
    obtain ⟨rfl, hs'⟩ := ih hw hv hcode
    refine ⟨rfl, ?_⟩
    rw [hs', hs1, Fragment.append_assoc]
    rfl

/-- **Recovered values stand for the code that they came from.**  If code that only computes values
runs from the empty stack, it completes no statement, and the values that it leaves, from the bottom
of the stack to the top, turn into exactly that code. -/
theorem code_of_recovered_values {code : List (Instruction × Nat)}
    (hw : ∀ x ∈ code, x.1.wellFormed = true) (hv : ∀ x ∈ code, x.1.isValue = true)
    {s : ValueStack} {ss : List Stmt} (h : (recoverAll code).run [] = (.ok ss, s)) :
    ss = [] ∧ ofExprs s.reverse = ⟨code.map fun x => .ofInstruction x.1, none⟩ :=
  ofExprs_of_run_recoverAll hw hv h

theorem isSome_pushConstant : (Opcode.ofKind? (.push .constant)).isSome = true := by
  decide

/-- A bit of the savemap, and a distance that is added to a register without a name. -/
def valueCode : List Instruction :=
  [⟨(Opcode.ofKind? (.push (.memory .savemap .bit))).get (by decide), [0x1C33]⟩,
    ⟨(Opcode.ofKind? (.push (.memory .special .byte))).get (by decide), [0xFF]⟩,
    ⟨(Opcode.ofKind? (.push .constant)).get isSome_pushConstant, [0xFFFF]⟩,
    ⟨(Opcode.ofFunction? "Entity" "distance_to_entity").get (by decide), []⟩,
    ⟨.math .add, []⟩]

theorem code_of_recovered_values_pair : ∃ s : ValueStack, s.length = 2 ∧
    ofExprs s.reverse = ⟨valueCode.map .ofInstruction, none⟩ := by
  have hrun : (recoverAll (valueCode.zipIdx 1)).run [] = (.ok [], _) := rfl
  exact ⟨_, rfl, (code_of_recovered_values (by decide) (by decide) hrun).2⟩

end MapScript.Recovery
