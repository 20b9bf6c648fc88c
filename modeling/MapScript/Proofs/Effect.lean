import MapScript.Proofs.Values

/-!
# What an instruction does

`Recovers i s ss s'` lists everything that an instruction can do to a stack of expressions: it
turns `s` into `s'` and completes the statements `ss`.  Whatever succeeds is one of these
(`recovers_of_run`), so that invariants of recovery are case analyses over `Recovers`.  The first of
them is that completed statements are plain: they neither jump nor hold others
(`isPlain_of_recovers`).
-/

namespace MapScript

/-- Whether a statement neither jumps, nor can be jumped to, nor has others in it. -/
def Stmt.isPlain : Stmt → Bool
  | expr _ | assign _ _ | ret => true
  | _ => false

namespace Recovery

/-- The instruction turns the stack `s` into `s'` and completes the statements `ss`. -/
inductive Recovers (i : Instruction) : ValueStack → List Stmt → ValueStack → Prop
  | idle {s : ValueStack} (kind : i.kind = .nop ∨ i.kind.isJump = true) : Recovers i s [] s
  | reset {s : ValueStack} (kind : i.kind = .reset) : Recovers i s [] []
  | push {s : ValueStack} {source : Source} (kind : i.kind = .push source) :
      Recovers i s [] (loaded source (i.operands.headD 0) :: s)
  | unary {s : ValueStack} {e : Expr} {u : UnaryOp} (kind : i.kind = .math u.math) :
      Recovers i (e :: s) [] (.unary u e :: s)
  | binary {s : ValueStack} {x y : Expr} {b : BinaryOp} {m : MathOp} (kind : i.kind = .math m)
      (op : b.math? = some m) : Recovers i (y :: x :: s) [] (.binary b x y :: s)
  | write {s : ValueStack} {x y : Expr} (kind : i.kind = .write) :
      Recovers i (y :: x :: s) [.assign x y] s
  | callFunction {s : ValueStack} {e : Expr} (kind : i.kind = .callFunction) :
      Recovers i (e :: s) [.call "System" "call_function"
        [.num (i.opcode.code - callEntry.code).toUInt32, e]] s
  | ret {s : ValueStack} (kind : i.kind = .ret) : Recovers i s [.ret] s
  /-- A number of frames and `WAIT` become one call. -/
  | wait {s : ValueStack} {args : List Expr} (opcode : i.opcode = .wait) :
      Recovers i (.call (.path "System" "wait_frames") args :: s) [.call "System" "wait" args] s
  /-- A call of the engine that leaves a result. -/
  | value {s : ValueStack} {args : List Expr} (kind : i.kind = .generic)
      (length : args.length = i.opcode.entry.pops)
      (result : i.opcode.entry.pushesResult = true) :
      Recovers i (args.reverse ++ s) [] (callOf i.opcode args :: s)
  /-- A call of the engine that leaves none. -/
  | call {s : ValueStack} {args : List Expr} (kind : i.kind = .generic)
      (length : args.length = i.opcode.entry.pops)
      (result : i.opcode.entry.pushesResult = false) :
      Recovers i (args.reverse ++ s) [.expr (callOf i.opcode args)] s

theorem eq_cons_of_pop {line : Nat} {op : Opcode} {s s' : ValueStack} {e : Expr}
    (h : (ValueStack.pop line op).run s = (.ok e, s')) : s = e :: s' := by
  cases s with
  | nil => cases h
  | cons x s =>
    cases h
    rfl

theorem eq_cons_of_takePair {line : Nat} {op : Opcode} {s s' : ValueStack} {x y : Expr}
    (h : (ValueStack.takePair line op).run s = (.ok (x, y), s')) : s = y :: x :: s' := by
  match s with
  | [] => cases h
  | [_] => cases h
  | _ :: _ :: _ =>
    cases h
    rfl

theorem eq_append_of_takeTop {n line : Nat} {op : Opcode} {s s' : ValueStack} {args : List Expr}
    (h : (ValueStack.takeTop n line op).run s = (.ok args, s')) :
    args.length = n ∧ s = args.reverse ++ s' := by
  rcases Nat.lt_or_ge s.length n with hlt | hle
  · rw [ValueStack.run_takeTop_of_lt hlt] at h
    cases h
  · rw [ValueStack.run_takeTop_of_le hle] at h
    cases h
    simp [hle]

/-- The number of frames that a call of `System.wait_frames` counts. -/
theorem eq_call_of_waitFramesArgs? {e : Expr} {args : List Expr}
    (h : waitFramesArgs? e = some args) : e = .call (.path "System" "wait_frames") args := by
  unfold waitFramesArgs? at h
  split at h
  · next he =>
    cases h
    exact Expr.eq_call_of_pathCall? he
  · cases h

theorem recovers_of_recoverCall {i : Instruction} {line : Nat} {s s' : ValueStack}
    {ss : List Stmt} (hk : i.kind = .generic)
    (h : (recoverCall line i.opcode).run s = (.ok ss, s')) : Recovers i s ss s' := by
  unfold recoverCall at h
  obtain ⟨args, s1, htake, hrest⟩ := run_bind_eq_ok h
  obtain ⟨hlen, hs⟩ := eq_append_of_takeTop htake
  rw [hs]
  by_cases hp : i.opcode.entry.pushesResult = true
  · rw [if_pos hp] at hrest
    cases hrest
    exact .value hk hlen hp
  · rw [if_neg hp] at hrest
    cases hrest
    exact .call hk hlen (by simpa using hp)

theorem recovers_of_recoverWait {i : Instruction} {line : Nat} {s s' : ValueStack}
    {ss : List Stmt} (hk : i.kind = .generic) (hw : i.opcode = .wait)
    (h : (recoverWait line i.opcode).run s = (.ok ss, s')) : Recovers i s ss s' := by
  unfold recoverWait at h
  obtain ⟨s0, s1, hget, h⟩ := run_bind_eq_ok h
  cases hget
  split at h
  · next args hargs =>
    obtain ⟨e, s1, hpop, h⟩ := run_bind_eq_ok h
    cases h
    obtain rfl := eq_cons_of_pop hpop
    have he : waitFramesArgs? e = some args := hargs
    rw [eq_call_of_waitFramesArgs? he]
    exact .wait hw
  · exact recovers_of_recoverCall hk h

/-- **What succeeds is listed.** -/
theorem recovers_of_run {i : Instruction} {line : Nat} {s s' : ValueStack} {ss : List Stmt}
    (h : (recover i line).run s = (.ok ss, s')) : Recovers i s ss s' := by
  unfold recover at h
  cases hk : i.kind with
  | nop =>
    simp only [hk] at h
    cases h
    exact .idle (.inl hk)
  | reset =>
    simp only [hk] at h
    obtain ⟨_, s1, hclear, h⟩ := run_bind_eq_ok h
    cases hclear
    cases h
    exact .reset hk
  | push source =>
    simp only [hk] at h
    cases h
    exact .push hk
  | math m =>
    simp only [hk] at h
    cases hm : Operator.ofMath m with
    | unary u =>
      simp only [hm] at h
      obtain ⟨e, s1, hpop, h⟩ := run_bind_eq_ok h
      cases h
      obtain rfl := eq_cons_of_pop hpop
      obtain rfl := Operator.ofMath_eq_unary_iff.mp hm
      exact .unary hk
    | binary b =>
      simp only [hm] at h
      obtain ⟨⟨x, y⟩, s1, hpair, h⟩ := run_bind_eq_ok h
      cases h
      obtain rfl := eq_cons_of_takePair hpair
      exact .binary hk (Operator.ofMath_eq_binary_iff.mp hm)
  | write =>
    simp only [hk] at h
    obtain ⟨value, s1, hvalue, h⟩ := run_bind_eq_ok h
    obtain ⟨target, s2, htarget, h⟩ := run_bind_eq_ok h
    cases h
    rw [eq_cons_of_pop hvalue, eq_cons_of_pop htarget]
    exact .write hk
  | callFunction =>
    simp only [hk] at h
    obtain ⟨entity, s1, hpop, h⟩ := run_bind_eq_ok h
    cases h
    rw [eq_cons_of_pop hpop]
    exact .callFunction hk
  | ret =>
    simp only [hk] at h
    cases h
    exact .ret hk
  | generic =>
    simp only [hk] at h
    by_cases hw : i.opcode = .wait
    · rw [if_pos hw] at h
      exact recovers_of_recoverWait hk hw h
    · rw [if_neg hw] at h
      exact recovers_of_recoverCall hk h
  | goto =>
    simp only [hk] at h
    cases h
    exact .idle (.inr (by rw [hk]; rfl))
  | gotoIfFalse =>
    simp only [hk] at h
    cases h
    exact .idle (.inr (by rw [hk]; rfl))

/-- Instructions complete assignments, calls and returns. -/
theorem isPlain_of_recovers {i : Instruction} {s s' : ValueStack} {ss : List Stmt}
    (h : Recovers i s ss s') : ∀ x ∈ ss, x.isPlain = true := by
  cases h <;> simp [Stmt.isPlain, Stmt.call]

end Recovery

end MapScript
