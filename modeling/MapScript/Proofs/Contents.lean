import MapScript.Proofs.Closure

/-!
# What recovered scripts are made of

A recovered script holds what recovery completes, the conditions that were on the stack, and jumps
and labels named after offsets.  So a property of expressions that recovery keeps is one of the
whole script (`madeOf_of_recovered`).  Recovered scripts are busy (`busy_of_recovered`): they have
no call that does nothing.
-/

namespace MapScript

open Structured Script Recovery

/-- Recovery turns expressions with `P` into expressions with `P`, and completes statements
with `Q`. -/
def Recovery.Keeps (P : Expr → Prop) (Q : Stmt → Prop) : Prop :=
  ∀ i s ss s', Recovers i s ss s' → (∀ e ∈ s, P e) → (∀ x ∈ ss, Q x) ∧ ∀ e ∈ s', P e

/-- A statement that was completed, or one that the walk adds. -/
def Stmt.MadeOf (P : Expr → Prop) (Q : Stmt → Prop) : Stmt → Prop
  | ifThen condition _ => P condition
  | goto name | label name => ∃ t, name = labelAt t
  | block _ => True
  | s => Q s

/-- Statements at all depths and the values that are left over. -/
structure Made (P : Expr → Prop) (Q : Stmt → Prop) (ss : List Stmt) (stack : ValueStack) :
    Prop where
  stmts : ∀ s ∈ within ss, s.MadeOf P Q
  stack : ∀ e ∈ stack, P e

theorem forall_within_grouped {R : Stmt → Prop} (hb : ∀ body, R (.block body)) {ss : List Stmt}
    (h : ∀ s ∈ within ss, R s) : ∀ s ∈ within (grouped ss), R s := by
  unfold grouped
  split
  · exact h
  · exact h
  · intro s hs
    simp only [within, withinStmt, List.append_nil, List.mem_cons] at hs
    rcases hs with rfl | hs
    · exact hb _
    · exact h s hs

section

variable {P : Expr → Prop} {Q : Stmt → Prop}

theorem madeOf_labelsOf (p : Program) (t : Nat) :
    ∀ s ∈ within (p.labelsOf t), s.MadeOf P Q := by
  unfold Program.labelsOf
  split
  · intro s hs
    obtain rfl : s = .label (labelAt t) := by simpa [within, withinStmt] using hs
    exact ⟨t, rfl⟩
  · intro s hs
    cases hs

theorem Made.line {p : Program} {t : Nat} {core : List Stmt} {stack : ValueStack}
    (h : Made P Q core stack) : Made P Q (grouped (p.labelsOf t ++ core)) stack where
  stmts := by
    refine forall_within_grouped (fun _ => trivial) fun s hs => ?_
    rw [within_append, List.mem_append] at hs
    rcases hs with hs | hs
    · exact madeOf_labelsOf p t s hs
    · exact h.stmts s hs
  stack := h.stack

theorem Made.append {xs ys : List Stmt} {stack stack' : ValueStack} (h : Made P Q xs stack)
    (h' : Made P Q ys stack') : Made P Q (xs ++ ys) stack' where
  stmts s hs := by
    rw [within_append, List.mem_append] at hs
    rcases hs with hs | hs
    · exact h.stmts s hs
    · exact h'.stmts s hs
  stack := h'.stack

/-- What is completed is plain, so nothing is added to it. -/
theorem Stmt.MadeOf.of_isPlain {s : Stmt} (hp : s.isPlain = true) (h : Q s) : s.MadeOf P Q := by
  cases s <;> first | exact h | cases hp

variable (hk : Keeps P Q)
include hk

theorem Walked.made {p : Program} {st st' : State} {lines : List Numbered} {ss : List Stmt}
    (h : Walked p st lines ss st') (hs : ∀ e ∈ st.stack, P e) : Made P Q ss st'.stack := by
  induction h with
  | nil => exact ⟨by simp [within], hs⟩
  | append first second ih1 ih2 =>
    have hm := ih1 hs
    exact hm.append (ih2 hm.stack)
  | @goto st x t mem fresh jump =>
    refine Made.line ⟨fun s hs' => ?_, hs⟩
    obtain rfl : s = .goto (labelAt t) := by simpa [within, withinStmt] using hs'
    exact ⟨t, rfl⟩
  | @branch st st' x c stack ys body mem fresh jump top inner ih =>
    rw [top] at hs
    have hbody := ih fun e he => hs e (List.mem_cons_of_mem _ he)
    refine Made.line ⟨fun s hs' => ?_, hbody.stack⟩
    simp only [within, withinStmt, List.append_nil, List.mem_cons] at hs'
    rcases hs' with rfl | hs'
    · exact hs c List.mem_cons_self
    · exact hbody.stmts s hs'
  | plain mem fresh jump run =>
    have hplain := isPlain_of_recovers run
    obtain ⟨hq, hstack⟩ := hk _ _ _ _ run hs
    refine Made.line ⟨?_, hstack⟩
    rw [within_of_isPlain hplain]
    exact fun s hs' => .of_isPlain (hplain s hs') (hq s hs')

/-- **Recovered scripts** are made of what recovery keeps. -/
theorem madeOf_of_recovered {start : Nat} {code : List Instruction} {d : Structured}
    (h : Structured.ofInstructions start code = .ok d) : ∀ s ∈ within d.stmts, s.MadeOf P Q := by
  obtain ⟨ss, st, -, hw, -, -, hd⟩ := exists_traced h
  obtain ⟨lines, hw⟩ := walked_of_walk hw
  have hm := hw.made hk (by simp)
  rw [hd]
  intro s hs
  rw [within_append, List.mem_append] at hs
  rcases hs with hs | hs
  · exact hm.stmts s hs
  · exact madeOf_labelsOf _ _ s hs

end

/-! ## Calls that do nothing -/

theorem Opcode.kinds_idle : (ofFunction? "System" "noop").map kind = some .nop ∧
    (ofFunction? "System" "reset_stack").map kind = some .reset := by
  decide

/-- No call of the engine has the name of an idle one. -/
theorem Opcode.not_isIdle_of_kind {op : Opcode} (h : op.kind = .generic) (args : List Expr) :
    (Expr.call (.path op.entry.subsystem.name op.entry.name) args).isIdle = false := by
  have hfind := ofFunction?_of_kind h
  rw [Bool.eq_false_iff]
  intro hidle
  simp only [Expr.isIdle, Expr.pathCall?, Expr.path?_path, Option.map_some, Bool.and_eq_true,
    Bool.or_eq_true, beq_iff_eq] at hidle
  obtain ⟨hq, hn | hn⟩ := hidle
  · rw [hq, hn] at hfind
    simpa [hfind, h] using kinds_idle.1
  · rw [hq, hn] at hfind
    simpa [hfind, h] using kinds_idle.2

/-- A call that is completed does something. -/
def Stmt.isBusy : Stmt → Bool
  | expr e => !e.isIdle
  | _ => true

theorem Recovery.keeps_isBusy : Keeps (fun _ => True) (fun s => s.isBusy = true) := by
  intro i s ss s' h _
  refine ⟨?_, fun _ _ => trivial⟩
  cases h with
  | idle | reset | push | unary | binary | value => simp
  | write => simp [Stmt.isBusy]
  | ret => simp [Stmt.isBusy]
  | callFunction | wait => simp [Stmt.isBusy, Stmt.call, Expr.isIdle, Expr.pathCall?]
  | @call s args kind length result =>
    have hidle : (callOf i.opcode args).isIdle = false := Opcode.not_isIdle_of_kind kind args
    simp [Stmt.isBusy, hidle]

theorem busy_of_recovered {start : Nat} {code : List Instruction} {d : Structured}
    (h : Structured.ofInstructions start code = .ok d) : Busy d.stmts := by
  intro e he
  have := madeOf_of_recovered keeps_isBusy h _ he
  simpa [Stmt.MadeOf, Stmt.isBusy] using this

end MapScript
