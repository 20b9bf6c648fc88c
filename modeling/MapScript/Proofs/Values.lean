import MapScript.Proofs.Reference
import MapScript.Proofs.Runs

/-!
# Code that leaves values

The code of an expression, run on the stack of expressions, leaves one expression, and that one has
the same code.  It need not be the expression itself: numbers lose their radix, calls of operators
become operators, addresses get names.

* `Replays code s s'`: the code completes no statement and turns the stack `s` into `s'`.
* `Loads code es`: the code pushes `es`, and `es` turn into that code again.

Each instruction that computes a value extends `Loads` by one lemma (`Loads.load`, `Loads.unary`,
`Loads.binary`, `Loads.call`); `exists_loads` puts them together over all expressions.
-/

namespace MapScript

/-! ## Fragments -/

namespace Fragment

theorem failure_append (a b : Fragment) :
    (a ++ b).failure = none ↔ a.failure = none ∧ b.failure = none := by
  rcases a with ⟨code, _ | e⟩
  · exact ⟨fun h => ⟨rfl, h⟩, fun h => h.2⟩
  · exact ⟨fun h => absurd h (by rintro ⟨⟩), fun h => absurd h.1 (by rintro ⟨⟩)⟩

theorem mk_append (code : List CodeItem) (b : Fragment) :
    (⟨code, none⟩ : Fragment) ++ b = ⟨code ++ b.code, b.failure⟩ := rfl

/-- Code that ends in an item is complete if what comes before is. -/
theorem append_emit_eq {f : Fragment} {item : CodeItem} {c : List CodeItem} :
    f ++ .emit item = ⟨c, none⟩ ↔ ∃ c', f = ⟨c', none⟩ ∧ c = c' ++ [item] := by
  rcases f with ⟨code, _ | e⟩
  · rw [mk_append, emit]
    constructor
    · intro h
      cases h
      exact ⟨code, rfl, rfl⟩
    · rintro ⟨c', h, rfl⟩
      cases h
      rfl
  · constructor
    · intro h
      cases congrArg failure h
    · rintro ⟨c', h, -⟩
      cases congrArg failure h

end Fragment

namespace Lowering

theorem ofExprs_append (xs ys : List Expr) : ofExprs (xs ++ ys) = ofExprs xs ++ ofExprs ys := by
  induction xs with
  | nil => simp [ofExprs]
  | cons x xs ih => simp only [List.cons_append, ofExprs, ih, Fragment.append_assoc]

theorem ofExprs_singleton (e : Expr) : ofExprs [e] = ofExpr e := by
  simp [ofExprs]

/-- The code of a call that leaves a result and is no reference to memory. -/
theorem ofExpr_function {callee : Expr} {qualifier name : String} {op : Opcode}
    (hc : callee.path? = some (qualifier, name))
    (hb : ∀ bank width, Bank.ofName? qualifier = some bank → Width.ofName? name ≠ some width)
    (hf : Opcode.ofFunction? qualifier name = some op) (hp : op.entry.pushesResult = true)
    (args : List Expr) :
    ofExpr (.call callee args) = applied op args.length (ofExprs args) := by
  rw [ofExpr]
  simp only [hc]
  -- `hb` rules out the first row of the match
  simp only [hf, hp, if_true]

end Lowering

/-! ## Operators -/

theorem Operator.ofMath_eq_unary_iff {m : MathOp} {u : UnaryOp} :
    ofMath m = .unary u ↔ m = u.math := by
  constructor
  · intro h
    cases m <;> cases h <;> rfl
  · rintro rfl
    cases u <;> rfl

theorem Operator.ofMath_eq_binary_iff {m : MathOp} {b : BinaryOp} :
    ofMath m = .binary b ↔ b.math? = some m := by
  constructor
  · intro h
    cases m <;> cases h <;> rfl
  · intro h
    cases b <;> cases h <;> rfl

theorem UnaryOp.isUnary_math (u : UnaryOp) : u.math.isUnary = true := by
  cases u <;> rfl

theorem BinaryOp.isUnary_of_math? {b : BinaryOp} {m : MathOp} (h : b.math? = some m) :
    m.isUnary = false := by
  cases b <;> cases h <;> rfl

/-! ## One instruction on the stack -/

namespace Recovery

theorem run_recover_push {i : Instruction} {source : Source} (h : i.kind = .push source)
    (line : Nat) (s : ValueStack) :
    (recover i line).run s = (.ok [], loaded source (i.operands.headD 0) :: s) := by
  unfold recover
  simp only [h]
  rfl

theorem run_recover_reset {i : Instruction} (h : i.kind = .reset) (line : Nat) (s : ValueStack) :
    (recover i line).run s = (.ok [], []) := by
  unfold recover
  simp only [h]
  rfl

theorem run_recover_unary {i : Instruction} {u : UnaryOp} (h : i.kind = .math u.math)
    (line : Nat) (e : Expr) (s : ValueStack) :
    (recover i line).run (e :: s) = (.ok [], .unary u e :: s) := by
  unfold recover
  simp only [h, Operator.ofMath_eq_unary_iff.mpr rfl]
  rfl

theorem run_recover_binary {i : Instruction} {b : BinaryOp} {m : MathOp} (h : i.kind = .math m)
    (hb : b.math? = some m) (line : Nat) (x y : Expr) (s : ValueStack) :
    (recover i line).run (y :: x :: s) = (.ok [], .binary b x y :: s) := by
  unfold recover
  simp only [h, Operator.ofMath_eq_binary_iff.mpr hb]
  rfl

/-- The call that an opcode of the engine stands for. -/
def callOf (op : Opcode) (args : List Expr) : Expr :=
  .call (.path op.entry.subsystem.name op.entry.name) args

theorem run_recoverCall {op : Opcode} {args : List Expr} (h : args.length = op.entry.pops)
    (line : Nat) (s : ValueStack) :
    (recoverCall line op).run (args.reverse ++ s) =
      if op.entry.pushesResult then (.ok [], callOf op args :: s)
      else (.ok [.expr (callOf op args)], s) := by
  have hlen : args.reverse.length = op.entry.pops := by rw [List.length_reverse, h]
  have htake : (args.reverse ++ s).take op.entry.pops = args.reverse := by
    rw [← hlen, List.take_left]
  have hdrop : (args.reverse ++ s).drop op.entry.pops = s := by
    rw [← hlen, List.drop_left]
  have hrun := ValueStack.run_takeTop_of_le (n := op.entry.pops) (s := args.reverse ++ s)
    (by rw [List.length_append]; omega) line op
  rw [htake, hdrop, List.reverse_reverse] at hrun
  unfold recoverCall
  rw [run_bind_ok hrun]
  by_cases hp : op.entry.pushesResult = true
  · rw [if_pos hp, if_pos hp]
    rfl
  · rw [if_neg hp, if_neg hp]
    rfl

theorem run_recover_generic {i : Instruction} (hk : i.kind = .generic) (hw : i.opcode ≠ .wait)
    {args : List Expr} (h : args.length = i.opcode.entry.pops) (line : Nat) (s : ValueStack) :
    (recover i line).run (args.reverse ++ s) =
      if i.opcode.entry.pushesResult then (.ok [], callOf i.opcode args :: s)
      else (.ok [.expr (callOf i.opcode args)], s) := by
  rw [← run_recoverCall h line s]
  unfold recover
  simp only [hk, hw, if_false]

/-- The code completes no statement and turns the stack `s` into `s'`. -/
def Replays : List Instruction → ValueStack → ValueStack → Prop
  | [], s, s' => s = s'
  | i :: rest, s, s' => i.kind.isJump = false ∧
      ∃ s1, (∀ line, (recover i line).run s = (.ok [], s1)) ∧ Replays rest s1 s'

theorem Replays.append {xs ys : List Instruction} {s s1 s2 : ValueStack}
    (hx : Replays xs s s1) (hy : Replays ys s1 s2) : Replays (xs ++ ys) s s2 := by
  induction xs generalizing s with
  | nil =>
    cases hx
    exact hy
  | cons i xs ih =>
    obtain ⟨hj, s', hr, hx⟩ := hx
    exact ⟨hj, s', hr, ih hx⟩

theorem Replays.single {i : Instruction} {s s' : ValueStack} (hj : i.kind.isJump = false)
    (h : ∀ line, (recover i line).run s = (.ok [], s')) : Replays [i] s s' :=
  ⟨hj, s', h, rfl⟩

end Recovery

/-! ## Code and the values it leaves -/

open Recovery Lowering

/-- The code pushes `es`, the last one on top, and is the code of `es`. -/
structure Loads (code : List Instruction) (es : List Expr) : Prop where
  replays : ∀ s, Replays code s (es.reverse ++ s)
  lowers : ofExprs es = ⟨code.map .ofInstruction, none⟩
  wellFormed : ∀ i ∈ code, i.wellFormed = true

namespace Loads

theorem nil : Loads [] [] where
  replays _ := rfl
  lowers := rfl
  wellFormed := by simp

theorem append {xs ys : List Instruction} {es fs : List Expr} (hx : Loads xs es)
    (hy : Loads ys fs) : Loads (xs ++ ys) (es ++ fs) where
  replays s := by
    rw [List.reverse_append, List.append_assoc]
    exact (hx.replays s).append (hy.replays _)
  lowers := by rw [ofExprs_append, hx.lowers, hy.lowers, List.map_append]; rfl
  wellFormed i hi := by
    rcases List.mem_append.mp hi with h | h
    · exact hx.wellFormed i h
    · exact hy.wellFormed i h

/-- No values have no code. -/
theorem eq_nil {code : List Instruction} (h : Loads code []) : code = [] := by
  simpa [ofExprs, Fragment.empty, eq_comm] using h.lowers

theorem lowers_singleton {code : List Instruction} {e : Expr} (h : Loads code [e]) :
    ofExpr e = ⟨code.map .ofInstruction, none⟩ := by
  rw [← ofExprs_singleton]
  exact h.lowers

/-- An operation behind the code of its operands, if it is the last item of its own code. -/
theorem operation {code : List Instruction} {es : List Expr} (h : Loads code es) {op : Opcode}
    {e : Expr} (hj : op.kind.isJump = false) (ha : op.kind.arity = 0)
    (hr : ∀ line s, (recover ⟨op, []⟩ line).run (es.reverse ++ s) = (.ok [], e :: s))
    (hl : ofExpr e = ofExprs es ++ .emit (.bare op)) : Loads (code ++ [⟨op, []⟩]) [e] where
  replays s := (h.replays s).append (Replays.single hj fun line => hr line s)
  lowers := by
    rw [ofExprs_singleton, hl, h.lowers, List.map_append]
    rfl
  wellFormed i hi := by
    rcases List.mem_append.mp hi with h' | h'
    · exact h.wellFormed i h'
    · rw [List.mem_singleton.mp h', Instruction.wellFormed_iff]
      exact ha.symm

theorem load {source : Source} {op : Opcode} (h : Opcode.ofKind? (.push source) = some op)
    (v : UInt16) : Loads [⟨op, [v]⟩] [loaded source v] where
  replays s :=
    have hk : (⟨op, [v]⟩ : Instruction).kind = .push source := Opcode.kind_of_ofKind? h
    Replays.single (by rw [hk]; rfl) fun line => run_recover_push hk line s
  lowers := by
    rw [ofExprs_singleton, ofExpr_loaded h]
    rfl
  wellFormed i hi := by
    have hk : op.kind = .push source := Opcode.kind_of_ofKind? h
    rw [List.mem_singleton.mp hi, Instruction.wellFormed_iff, Instruction.kind, hk]
    rfl

theorem unary {code : List Instruction} {e : Expr} (h : Loads code [e]) (u : UnaryOp) :
    Loads (code ++ [⟨.math u.math, []⟩]) [.unary u e] :=
  h.operation (by simp [Kind.isJump]) (by simp [Kind.arity])
    (fun line s => run_recover_unary (i := ⟨.math u.math, []⟩) (Opcode.kind_math _) line e s)
    (by rw [ofExprs_singleton, ofExpr])

theorem binary {code : List Instruction} {x y : Expr} (h : Loads code [x, y]) {b : BinaryOp}
    {m : MathOp} (hb : b.math? = some m) :
    Loads (code ++ [⟨.math m, []⟩]) [.binary b x y] :=
  h.operation (by simp [Kind.isJump]) (by simp [Kind.arity])
    (fun line s => run_recover_binary (i := ⟨.math m, []⟩) (Opcode.kind_math _) hb line x y s)
    (by simp [ofExprs, ofExpr, hb, Fragment.append_assoc])

/-- A machine operation that is written as a call. -/
theorem mathCall {code : List Instruction} {es : List Expr} (h : Loads code es) {m : MathOp}
    (hlen : es.length = if m.isUnary then 1 else 2) :
    ∃ e, Loads (code ++ [⟨.math m, []⟩]) [e] := by
  cases hm : Operator.ofMath m with
  | unary u =>
    obtain rfl := Operator.ofMath_eq_unary_iff.mp hm
    have h1 : es.length = 1 := by rw [hlen, u.isUnary_math]; rfl
    obtain ⟨e, rfl⟩ := List.length_eq_one_iff.mp h1
    exact ⟨_, h.unary u⟩
  | binary b =>
    have hb := Operator.ofMath_eq_binary_iff.mp hm
    have h2 : es.length = 2 := by rw [hlen, BinaryOp.isUnary_of_math? hb]; rfl
    match es, h2 with
    | [x, y], _ => exact ⟨_, h.binary hb⟩

/-- A call of the engine that leaves a result. -/
theorem call {code : List Instruction} {es : List Expr} (h : Loads code es)
    {qualifier name : String} {op : Opcode} (hf : Opcode.ofFunction? qualifier name = some op)
    (hp : op.entry.pushesResult = true) (hk : op.kind = .generic)
    (hb : ∀ bank width, Bank.ofName? qualifier = some bank → Width.ofName? name ≠ some width)
    (hlen : es.length = op.entry.pops) : Loads (code ++ [⟨op, []⟩]) [callOf op es] := by
  have hw : op ≠ .wait := by
    rintro rfl
    exact absurd hp (by decide)
  refine h.operation (by rw [hk]; rfl) (by rw [hk]; rfl) (fun line s => ?_) ?_
  · rw [run_recover_generic (i := ⟨op, []⟩) hk hw hlen]
    exact if_pos hp
  · obtain ⟨-, hq, hn, -⟩ := Opcode.exists_row_of_ofFunction? hf
    rw [callOf, hq, hn, ofExpr_function (Expr.path?_path _ _) hb hf hp, applied, if_pos hlen]

end Loads

/-! ## Expressions -/

theorem exists_loads_push {e : Expr} {load : Except LoweringError Reference.Load}
    (h : (push e load).failure = none) :
    ∃ code e', Loads code [e'] ∧ push e load = ⟨code.map .ofInstruction, none⟩ := by
  cases load with
  | error err => cases h
  | ok load =>
    unfold push at h ⊢
    cases hop : Opcode.ofKind? (.push load.source) with
    | none =>
      simp only [hop] at h
      cases h
    | some op =>
      refine ⟨_, _, Loads.load hop load.operand, ?_⟩
      simp only [hop]
      rfl

theorem exists_loads_function {qualifier name : String} {op : Opcode}
    (hf : Opcode.ofFunction? qualifier name = some op) (hp : op.entry.pushesResult = true)
    (hb : ∀ bank width, Bank.ofName? qualifier = some bank → Width.ofName? name ≠ some width)
    {code : List Instruction} {es : List Expr} (h : Loads code es)
    (hlen : es.length = op.entry.pops) : ∃ e, Loads (code ++ [⟨op, []⟩]) [e] := by
  rcases Opcode.kind_of_pushesResult hf hp with hk | ⟨m, hk, hm⟩
  · exact ⟨_, h.call hf hp hk hb hlen⟩
  · have he : op = .math m := Opcode.eq_of_kind (by rw [hk, Opcode.kind_math])
      (by rw [hk]; simp) (by rw [hk]; simp)
    rw [he]
    exact h.mathCall (hlen.trans hm)

mutual

/-- **Expressions come back.**  Code of an expression leaves one with the same code. -/
theorem exists_loads : (e : Expr) → (ofExpr e).failure = none →
    ∃ code e', Loads code [e'] ∧ ofExpr e = ⟨code.map .ofInstruction, none⟩
  | .literal l, h => by
    rw [ofExpr] at h ⊢
    exact exists_loads_push h
  | .ident name, h => by
    rw [ofExpr] at h
    cases h
  | .member object property, h => by
    rw [ofExpr] at h ⊢
    exact exists_loads_push h
  | .index base i, h => by
    rw [ofExpr] at h ⊢
    exact exists_loads_push h
  | .call callee args, h => by
    rw [ofExpr] at h ⊢
    split at h
    · cases h
    · next qualifier name _ =>
      split at h
      · exact exists_loads_push h
      · next hbw =>
        split at h
        · cases h
        · next op hf =>
          split at h
          · next hp =>
            unfold applied at h
            split at h
            · next hlen =>
              rw [Fragment.failure_append] at h
              obtain ⟨code, es, hes, hl, hc⟩ := exists_loadsAll args h.1
              obtain ⟨e', he'⟩ := exists_loads_function hf hp hbw hl (hes.trans hlen)
              refine ⟨_, e', he', ?_⟩
              simp only [hp, if_true, applied, hlen, hc, List.map_append]
              rfl
            · cases h
          · cases h
  | .binary op lhs rhs, h => by
    rw [ofExpr] at h ⊢
    split at h
    · cases h
    · next m hm =>
      rw [Fragment.failure_append, Fragment.failure_append] at h
      obtain ⟨c1, x, hx, e1⟩ := exists_loads lhs h.1.1
      obtain ⟨c2, y, hy, e2⟩ := exists_loads rhs h.1.2
      refine ⟨_, _, (hx.append hy).binary hm, ?_⟩
      rw [e1, e2, List.map_append, List.map_append]
      rfl
  | .unary op operand, h => by
    rw [ofExpr] at h ⊢
    rw [Fragment.failure_append] at h
    obtain ⟨code, x, hx, hc⟩ := exists_loads operand h.1
    refine ⟨_, _, hx.unary op, ?_⟩
    rw [hc, List.map_append]
    rfl

theorem exists_loadsAll : (es : List Expr) → (ofExprs es).failure = none →
    ∃ code es', es'.length = es.length ∧ Loads code es' ∧
      ofExprs es = ⟨code.map .ofInstruction, none⟩
  | [], _ => ⟨[], [], rfl, Loads.nil, rfl⟩
  | e :: rest, h => by
    rw [ofExprs, Fragment.failure_append] at h
    obtain ⟨c1, x, hx, e1⟩ := exists_loads e h.1
    obtain ⟨c2, es, hlen, hes, e2⟩ := exists_loadsAll rest h.2
    refine ⟨_, _, ?_, hx.append hes, ?_⟩
    · simp [hlen]
    · rw [ofExprs, e1, e2, List.map_append]
      rfl

end

end MapScript
