import MapScript.Proofs.Effect

/-!
# The depth of the stack

The table says how many values an opcode takes and whether it leaves one (`depthAfter`).  The kind
alone fixes both, unless it is `generic` (`effect_of_kind`).  Recovery keeps to the table: an
instruction that succeeds on a stack of expressions takes its values from the top and leaves its
result in their place (`worksOnTop_of_recovers`), which gives the depth:

    i.opcode.entry.pops ≤ s.length ∧ s'.length = i.depthAfter s.length     (depth_of_recovers)
-/

namespace MapScript

namespace Kind

/-- The values that an opcode of this kind takes, and whether it leaves one; a call of the engine
has numbers of its own. -/
def effect? : Kind → Option (Nat × Bool)
  | nop | reset | goto | ret => some (0, false)
  | push _ => some (0, true)
  | math op => some (if op.isUnary then 1 else 2, true)
  | write => some (2, false)
  | gotoIfFalse | callFunction => some (1, false)
  | generic => none

end Kind

namespace Opcode

theorem row_effect : ∀ e ∈ table,
    e.kind.effect?.all (· = (e.pops, e.pushesResult)) = true := by
  decide +kernel

/-- The kind fixes how many values an opcode takes and leaves. -/
theorem effect_of_kind {op : Opcode} {pops : Nat} {result : Bool}
    (h : op.kind.effect? = some (pops, result)) :
    op.entry.pops = pops ∧ op.entry.pushesResult = result := by
  cases op with
  | call n =>
    cases h
    exact ⟨rfl, rfl⟩
  | row i =>
    have hrow := row_effect _ (List.get_mem table i)
    have hi : (table.get i).kind.effect? = some (pops, result) := h
    rw [hi] at hrow
    have he : (pops, result) = ((table.get i).pops, (table.get i).pushesResult) := by
      simpa using hrow
    exact ⟨(congrArg Prod.fst he).symm, (congrArg Prod.snd he).symm⟩

end Opcode

namespace Instruction

/-- The number of values on the stack behind an instruction. -/
def depthAfter (i : Instruction) (depth : Nat) : Nat :=
  if i.kind = .reset then 0
  else depth - i.opcode.entry.pops + if i.opcode.entry.pushesResult then 1 else 0

/-- A deeper stack stays at least as deep. -/
theorem depthAfter_mono (i : Instruction) {m n : Nat} (h : m ≤ n) :
    i.depthAfter m ≤ i.depthAfter n := by
  unfold depthAfter
  split
  · exact Nat.le_refl 0
  · omega

theorem depthAfter_reset {i : Instruction} (h : i.kind = .reset) (depth : Nat) :
    i.depthAfter depth = 0 := if_pos h

end Instruction

/-- The stack `s'` is `s` with the values that the opcode takes replaced by those that it leaves. -/
def Opcode.WorksOnTop (op : Opcode) (s s' : ValueStack) : Prop :=
  ∃ taken left below, s = taken ++ below ∧ s' = left ++ below ∧
    taken.length = op.entry.pops ∧ left.length = if op.entry.pushesResult then 1 else 0

/-- The kind says what is taken and left. -/
theorem Opcode.worksOnTop_of_effect {op : Opcode} (taken left below : ValueStack) {pops : Nat}
    {result : Bool} (h : op.kind.effect? = some (pops, result)) (htaken : taken.length = pops)
    (hleft : left.length = if result then 1 else 0) :
    op.WorksOnTop (taken ++ below) (left ++ below) := by
  obtain ⟨hp, hres⟩ := effect_of_kind h
  exact ⟨taken, left, below, rfl, rfl, htaken.trans hp.symm, by rw [hleft, hres]⟩

namespace Recovery

/-- **An instruction works on the top of the stack** and does not see what lies below. -/
theorem worksOnTop_of_recovers {i : Instruction} {s s' : ValueStack} {ss : List Stmt}
    (hr : i.kind ≠ .reset) (hj : i.kind.isJump = false) (h : Recovers i s ss s') :
    i.opcode.WorksOnTop s s' := by
  cases h with
  | idle hk =>
    have hk : i.kind = .nop := hk.resolve_right (by simp [hj])
    exact Opcode.worksOnTop_of_effect [] [] _ (congrArg Kind.effect? hk) rfl rfl
  | reset hk => exact absurd hk hr
  | push hk => exact Opcode.worksOnTop_of_effect [] [_] _ (congrArg Kind.effect? hk) rfl rfl
  | @unary _ e u hk =>
    exact Opcode.worksOnTop_of_effect [e] [_] _ (congrArg Kind.effect? hk)
      (by rw [u.isUnary_math]; rfl) rfl
  | @binary _ x y b m hk hb =>
    exact Opcode.worksOnTop_of_effect [y, x] [_] _ (congrArg Kind.effect? hk)
      (by rw [BinaryOp.isUnary_of_math? hb]; rfl) rfl
  | @write _ x y hk =>
    exact Opcode.worksOnTop_of_effect [y, x] [] _ (congrArg Kind.effect? hk) rfl rfl
  | @callFunction _ e hk =>
    exact Opcode.worksOnTop_of_effect [e] [] _ (congrArg Kind.effect? hk) rfl rfl
  | ret hk => exact Opcode.worksOnTop_of_effect [] [] _ (congrArg Kind.effect? hk) rfl rfl
  | wait hw =>
    rw [hw]
    have hpops : Opcode.wait.entry.pops = 1 := by decide
    exact ⟨[_], [], _, rfl, rfl, hpops.symm, by decide⟩
  | @value s args hk hlen hres =>
    exact ⟨args.reverse, [_], s, rfl, rfl, by rw [List.length_reverse, hlen], by rw [hres]; rfl⟩
  | @call _ args hk hlen hres =>
    exact ⟨args.reverse, [], _, rfl, rfl, by rw [List.length_reverse, hlen], by rw [hres]; rfl⟩

theorem eq_nil_of_recovers_reset {i : Instruction} {s s' : ValueStack} {ss : List Stmt}
    (hr : i.kind = .reset) (h : Recovers i s ss s') : s' = [] := by
  cases h with
  | reset => rfl
  | idle hk => exact absurd hk (by simp [hr, Kind.isJump])
  | wait hw => exact absurd hr (by rw [Instruction.kind, hw]; decide)
  | push hk | unary hk | binary hk | write hk | callFunction hk | ret hk | value hk | call hk =>
    rw [hr] at hk
    cases hk

/-- **Recovery keeps to the table.**  An instruction that succeeds finds the values that it takes
and leaves the depth that the table gives. -/
theorem depth_of_recovers {i : Instruction} {s s' : ValueStack} {ss : List Stmt}
    (hj : i.kind.isJump = false) (h : Recovers i s ss s') :
    i.opcode.entry.pops ≤ s.length ∧ s'.length = i.depthAfter s.length := by
  by_cases hr : i.kind = .reset
  · have he : i.kind.effect? = some (0, false) := congrArg Kind.effect? hr
    rw [Instruction.depthAfter_reset hr, (Opcode.effect_of_kind he).1,
      eq_nil_of_recovers_reset hr h]
    exact ⟨Nat.zero_le _, rfl⟩
  · obtain ⟨taken, left, below, rfl, rfl, htaken, hleft⟩ := worksOnTop_of_recovers hr hj h
    rw [Instruction.depthAfter, if_neg hr, List.length_append, List.length_append, htaken, hleft]
    omega

end Recovery

end MapScript
