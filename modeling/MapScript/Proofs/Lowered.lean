import MapScript.Lowering.Stmt
import MapScript.Proofs.Values
import MapScript.Script.Reset

/-!
# The code of statements

`Lowers n stmts items n'` says that statements, with the resets that they need, turn into `items`
without a failure, where labels of conditions are numbered from `n` and the next one is `n'`.
There is one equivalence for each form of statement, so that code can be taken apart and put
together along the statements.
-/

namespace MapScript

namespace Lowering

open Script

/-- The statements turn into `items`; condition labels are numbered from `n` up to `n'`. -/
def Emits (n : Nat) (stmts : List Stmt) (items : List CodeItem) (n' : Nat) : Prop :=
  ofStmts n stmts = (⟨items, none⟩, n')

theorem emits_nil {n n' : Nat} {items : List CodeItem} :
    Emits n [] items n' ↔ items = [] ∧ n' = n := by
  simp only [Emits, ofStmts, Fragment.empty, Prod.mk.injEq, Fragment.mk.injEq, and_true]
  constructor
  · rintro ⟨rfl, rfl⟩
    exact ⟨rfl, rfl⟩
  · rintro ⟨rfl, rfl⟩
    exact ⟨rfl, rfl⟩

theorem emits_cons {n n' : Nat} {s : Stmt} {rest : List Stmt} {items : List CodeItem} :
    Emits n (s :: rest) items n' ↔ ∃ c1 m c2, ofStmt n s = (⟨c1, none⟩, m) ∧
      Emits m rest c2 n' ∧ items = c1 ++ c2 := by
  unfold Emits
  rw [ofStmts]
  rcases hs : ofStmt n s with ⟨⟨c1, _ | err⟩, m⟩
  · rcases hr : ofStmts m rest with ⟨⟨c2, f⟩, m'⟩
    simp only [hr, Fragment.mk_append, Prod.mk.injEq, Fragment.mk.injEq, and_true]
    constructor
    · rintro ⟨⟨rfl, rfl⟩, rfl⟩
      exact ⟨c1, m, c2, ⟨rfl, rfl⟩, hr, rfl⟩
    · rintro ⟨c1', m', c2', ⟨rfl, rfl⟩, hr', rfl⟩
      rw [hr'] at hr
      simp only [Prod.mk.injEq, Fragment.mk.injEq] at hr
      obtain ⟨⟨rfl, rfl⟩, rfl⟩ := hr
      exact ⟨⟨rfl, rfl⟩, rfl⟩
  · constructor
    · intro h
      simp at h
    · rintro ⟨c1', m', c2, h, -⟩
      simp at h

theorem emits_append {n n' : Nat} {xs ys : List Stmt} {items : List CodeItem} :
    Emits n (xs ++ ys) items n' ↔ ∃ c1 m c2, Emits n xs c1 m ∧ Emits m ys c2 n' ∧
      items = c1 ++ c2 := by
  induction xs generalizing n items with
  | nil =>
    constructor
    · intro h
      exact ⟨[], n, items, emits_nil.mpr ⟨rfl, rfl⟩, h, rfl⟩
    · rintro ⟨c1, m, c2, h1, h2, rfl⟩
      obtain ⟨rfl, rfl⟩ := emits_nil.mp h1
      exact h2
  | cons s xs ih =>
    rw [List.cons_append, emits_cons]
    constructor
    · rintro ⟨c1, m, c2, h1, h2, rfl⟩
      obtain ⟨c3, m', c4, h3, h4, rfl⟩ := ih.mp h2
      exact ⟨c1 ++ c3, m', c4, emits_cons.mpr ⟨c1, m, c3, h1, h3, rfl⟩, h4, by simp⟩
    · rintro ⟨c, m', c4, h, h4, rfl⟩
      obtain ⟨c1, m, c3, h1, h3, rfl⟩ := emits_cons.mp h
      exact ⟨c1, m, c3 ++ c4, h1, ih.mpr ⟨c3, m', c4, h3, h4, rfl⟩, by simp⟩

theorem emits_singleton {n n' : Nat} {s : Stmt} {items : List CodeItem} :
    Emits n [s] items n' ↔ ofStmt n s = (⟨items, none⟩, n') := by
  rw [emits_cons]
  constructor
  · rintro ⟨c1, m, c2, h1, h2, rfl⟩
    obtain ⟨rfl, rfl⟩ := emits_nil.mp h2
    simpa using h1
  · intro h
    exact ⟨items, n', [], h, emits_nil.mpr ⟨rfl, rfl⟩, by simp⟩

theorem ofStmt_resetCall (n : Nat) : ofStmt n resetCall = (⟨[.bare .reset], none⟩, n) := by
  have h : exprStmt (.call (.path "System" "reset_stack") []) = ⟨[.bare .reset], none⟩ := by rfl
  rw [resetCall, Stmt.call, ofStmt, h]

/-- A statement behind a reset. -/
theorem emits_reset {n n' : Nat} {s : Stmt} {items : List CodeItem} :
    Emits n [resetCall, s] items n' ↔ ∃ c, ofStmt n s = (⟨c, none⟩, n') ∧
      items = .bare .reset :: c := by
  rw [emits_cons]
  constructor
  · rintro ⟨c1, m, c2, h1, h2, rfl⟩
    rw [ofStmt_resetCall] at h1
    simp only [Prod.mk.injEq, Fragment.mk.injEq, and_true] at h1
    obtain ⟨rfl, rfl⟩ := h1
    exact ⟨c2, emits_singleton.mp h2, rfl⟩
  · rintro ⟨c, h, rfl⟩
    exact ⟨_, n, c, ofStmt_resetCall n, emits_singleton.mpr h, rfl⟩

/-! ## Statements with their resets -/

/-- The statements turn into `items` once resets are added. -/
def Lowers (n : Nat) (stmts : List Stmt) (items : List CodeItem) (n' : Nat) : Prop :=
  Emits n (withResets stmts) items n'

theorem Lowers.items_eq {n m m' : Nat} {stmts : List Stmt} {items items' : List CodeItem}
    (h : Lowers n stmts items m) (h' : Lowers n stmts items' m') : items = items' := by
  cases (show ofStmts n (withResets stmts) = _ from h).symm.trans h'
  rfl

theorem lowers_nil {n n' : Nat} {items : List CodeItem} :
    Lowers n [] items n' ↔ items = [] ∧ n' = n := emits_nil

theorem withResets_append (xs ys : List Stmt) :
    withResets (xs ++ ys) = withResets xs ++ withResets ys := by
  induction xs with
  | nil => rfl
  | cons s xs ih => simp only [List.cons_append, withResets, ih, List.append_assoc]

theorem withResets_singleton (s : Stmt) : withResets [s] = withReset s := by
  simp [withResets]

theorem lowers_append {n n' : Nat} {xs ys : List Stmt} {items : List CodeItem} :
    Lowers n (xs ++ ys) items n' ↔ ∃ c1 m c2, Lowers n xs c1 m ∧ Lowers m ys c2 n' ∧
      items = c1 ++ c2 := by
  unfold Lowers
  rw [withResets_append, emits_append]

theorem lowers_cons {n n' : Nat} {s : Stmt} {rest : List Stmt} {items : List CodeItem} :
    Lowers n (s :: rest) items n' ↔ ∃ c1 m c2, Lowers n [s] c1 m ∧ Lowers m rest c2 n' ∧
      items = c1 ++ c2 := by
  rw [show s :: rest = [s] ++ rest from rfl, lowers_append]

section

variable {n n' : Nat} {items : List CodeItem}

theorem lowers_goto {name : String} :
    Lowers n [.goto name] items n' ↔ items = [.insn .goto [.label name]] ∧ n' = n := by
  rw [Lowers, withResets_singleton, withReset, emits_singleton, ofStmt]
  simp [Fragment.emit, eq_comm]

theorem lowers_label {name : String} :
    Lowers n [.label name] items n' ↔ items = [.label name] ∧ n' = n := by
  rw [Lowers, withResets_singleton, withReset, emits_singleton, ofStmt]
  simp [Fragment.emit, eq_comm]

theorem lowers_ret : Lowers n [.ret] items n' ↔ items = [.bare .ret] ∧ n' = n := by
  rw [Lowers, withResets_singleton, withReset, emits_singleton, ofStmt]
  simp [Fragment.emit, eq_comm]

theorem lowers_block {body : List Stmt} :
    Lowers n [.block body] items n' ↔ Lowers n body items n' := by
  rw [Lowers, withResets_singleton, withReset]
  rfl

theorem assign_eq (target value : Expr) :
    assign target value = ofExprs [target, value] ++ .emit (.bare .write) := by
  simp [assign, ofExprs]

theorem lowers_assign {target value : Expr} :
    Lowers n [.assign target value] items n' ↔ ∃ c, ofExprs [target, value] = ⟨c, none⟩ ∧
      items = .bare .reset :: c ++ [.bare .write] ∧ n' = n := by
  rw [Lowers, withResets_singleton, withReset, emits_reset, ofStmt, assign_eq]
  constructor
  · rintro ⟨c, h, rfl⟩
    obtain ⟨hc, rfl⟩ := Prod.mk.inj h
    obtain ⟨c', hc', rfl⟩ := Fragment.append_emit_eq.mp hc
    exact ⟨c', hc', rfl, rfl⟩
  · rintro ⟨c, hc, rfl, rfl⟩
    refine ⟨c ++ [.bare .write], ?_, rfl⟩
    rw [Fragment.append_emit_eq.mpr ⟨c, hc, rfl⟩]

theorem lowers_expr {e : Expr} :
    Lowers n [.expr e] items n' ↔ ∃ c, exprStmt e = ⟨c, none⟩ ∧
      items = (if takesArguments e then [.bare .reset] else []) ++ c ∧ n' = n := by
  rw [Lowers, withResets_singleton, withReset]
  by_cases ht : takesArguments e = true
  · rw [if_pos ht, if_pos ht, emits_reset, ofStmt]
    constructor
    · rintro ⟨c, h, rfl⟩
      obtain ⟨hc, rfl⟩ := Prod.mk.inj h
      exact ⟨c, hc, rfl, rfl⟩
    · rintro ⟨c, hc, rfl, rfl⟩
      exact ⟨c, by rw [hc], rfl⟩
  · rw [if_neg ht, if_neg ht, emits_singleton, ofStmt]
    constructor
    · intro h
      obtain ⟨hc, rfl⟩ := Prod.mk.inj h
      exact ⟨items, hc, rfl, rfl⟩
    · rintro ⟨c, hc, rfl, rfl⟩
      rw [hc]

/-- The code ahead of the body of the condition with number `n`. -/
def branchItems (n : Nat) (load : List CodeItem) : List CodeItem :=
  .bare .reset :: load ++ [.insn .gotoIfFalse [.label (endLabel n)]]

theorem lowers_ifThen {condition : Expr} {body : List Stmt} :
    Lowers n [.ifThen condition body] items n' ↔ ∃ c b, ofExpr condition = ⟨c, none⟩ ∧
      Lowers (n + 1) body b n' ∧ items = branchItems n c ++ b ++ [.label (endLabel n)] := by
  rw [Lowers, withResets_singleton, withReset, emits_reset, ofStmt]
  rcases hc : ofExpr condition with ⟨c, _ | err⟩
  · rcases hb : ofStmts (n + 1) (withResets body) with ⟨⟨b, _ | err⟩, m⟩
    · simp only [Lowers, Emits, hb, Fragment.mk_append, Fragment.emit, Prod.mk.injEq,
        Fragment.mk.injEq, and_true]
      constructor
      · rintro ⟨c', ⟨rfl, rfl⟩, rfl⟩
        exact ⟨c, b, rfl, ⟨rfl, rfl⟩, by simp [branchItems]⟩
      · rintro ⟨c', b', rfl, ⟨rfl, rfl⟩, rfl⟩
        exact ⟨_, ⟨rfl, rfl⟩, by simp [branchItems]⟩
    · -- a failing body fails the whole statement
      constructor
      · rintro ⟨c', h, -⟩
        cases congrArg (·.1.failure) h
      · rintro ⟨c', b', -, h, -⟩
        rw [Lowers, Emits, hb] at h
        cases congrArg (·.1.failure) h
  · constructor
    · rintro ⟨c', h, -⟩
      cases congrArg (·.1.failure) h
    · rintro ⟨c', b', h, -⟩
      cases congrArg Fragment.failure h

end

end Lowering

end MapScript
