import MapScript.Proofs.Linked
import MapScript.Structured

/-!
# Phrases: the code of one statement

A phrase is the code that one statement stands for, up to the body of a condition.  Run on the
empty stack it completes nothing before its last instruction, and that one leaves the stack empty
again: it completes statements, jumps, or takes the condition of a body.

* `Phrase init last finish`: the code `init ++ [last]` is a phrase that ends in `finish`.
* `Finish.Faithful`: what it ends in turns into the same code.

Every statement that has code is such a phrase (`isPhrase_expr`, `isPhrase_assign`,
`phrase_goto`, `exists_phrase_branch`).  It is faithful unless it is a call that does nothing a
script can see: recovery drops `System.noop()` and `System.reset_stack()`.
-/

namespace MapScript

open Recovery Lowering

/-- How a phrase ends. -/
inductive Finish
  /-- With statements completed. -/
  | stmts (ss : List Stmt)
  | goto (target : Nat)
  /-- At a jump over the body of a condition. -/
  | branch (condition : Expr) (target : Nat)

namespace Finish

def target? : Finish → Option Nat
  | stmts _ => none
  | goto t => some t
  | branch _ t => some t

/-- The last instruction ends a phrase from the stack `s`. -/
def Ends (last : Instruction) (s : ValueStack) : Finish → Prop
  | stmts ss => last.kind.isJump = false ∧ ∀ line, (recover last line).run s = (.ok ss, [])
  | goto t => last.kind = .goto ∧ last.target? = some t ∧ s = []
  | branch c t => last.kind = .gotoIfFalse ∧ last.target? = some t ∧ s = [c]

/-- What the phrase ends in has the code `code`, apart from labels. -/
def Faithful (code : List Instruction) : Finish → Prop
  | stmts ss => ∀ n, Lowers n ss (code.map .ofInstruction) n
  | goto t => t < 0x10000 ∧ code = [⟨.goto, [UInt16.ofNat t]⟩]
  | branch c t => t < 0x10000 ∧ ∃ load, ofExpr c = ⟨load.map .ofInstruction, none⟩ ∧
      code = ⟨.reset, []⟩ :: load ++ [⟨.gotoIfFalse, [UInt16.ofNat t]⟩]

end Finish

/-- The code `init ++ [last]` is a phrase that ends in `finish`. -/
structure Phrase (init : List Instruction) (last : Instruction) (finish : Finish) : Prop where
  closed : ∃ s, Replays init [] s ∧ finish.Ends last s
  wellFormed : ∀ i ∈ init ++ [last], i.wellFormed = true

namespace Phrase

theorem wellFormed_snoc {init : List Instruction} {op : Opcode} {operands : List UInt16}
    (h : ∀ i ∈ init, i.wellFormed = true) (ha : operands.length = op.kind.arity) :
    ∀ i ∈ init ++ [⟨op, operands⟩], i.wellFormed = true := by
  intro i hi
  rcases List.mem_append.mp hi with h' | h'
  · exact h i h'
  · rw [List.mem_singleton.mp h', Instruction.wellFormed_iff]
    exact ha

/-- A single instruction that needs no values. -/
theorem single {op : Opcode} {ss : List Stmt} (hj : op.kind.isJump = false)
    (ha : op.kind.arity = 0) (hr : ∀ line, (recover ⟨op, []⟩ line).run [] = (.ok ss, [])) :
    Phrase [] ⟨op, []⟩ (.stmts ss) where
  closed := ⟨[], rfl, hj, hr⟩
  wellFormed := wellFormed_snoc (by simp) ha.symm

/-- A reset clears whatever the stack holds. -/
theorem replays_reset {code : List Instruction} {es : List Expr} (h : Loads code es)
    (s : ValueStack) : Replays (⟨.reset, []⟩ :: code) s es.reverse := by
  refine ⟨by rw [Instruction.kind, Opcode.kind_reset]; rfl, [],
    fun line => run_recover_reset (i := ⟨.reset, []⟩) Opcode.kind_reset line s, ?_⟩
  simpa using h.replays []

theorem wellFormed_reset {code : List Instruction} {es : List Expr} (h : Loads code es) :
    ∀ i ∈ (⟨.reset, []⟩ : Instruction) :: code, i.wellFormed = true := by
  intro i hi
  rcases List.mem_cons.mp hi with rfl | hi
  · decide
  · exact h.wellFormed i hi

/-- An instruction that takes all values loaded since a reset. -/
theorem ofLoads {code : List Instruction} {es : List Expr} (h : Loads code es) (op : Opcode)
    {ss : List Stmt} (hj : op.kind.isJump = false) (ha : op.kind.arity = 0)
    (hr : ∀ line, (recover ⟨op, []⟩ line).run es.reverse = (.ok ss, [])) :
    Phrase (⟨.reset, []⟩ :: code) ⟨op, []⟩ (.stmts ss) where
  closed := ⟨es.reverse, replays_reset h [], hj, hr⟩
  wellFormed := wellFormed_snoc (wellFormed_reset h) ha.symm

end Phrase

/-! ## One instruction that completes a statement -/

namespace Recovery

theorem run_recover_write {i : Instruction} (h : i.kind = .write) (line : Nat) (x y : Expr)
    (s : ValueStack) : (recover i line).run (y :: x :: s) = (.ok [.assign x y], s) := by
  unfold recover
  simp only [h]
  rfl

theorem run_recover_ret {i : Instruction} (h : i.kind = .ret) (line : Nat) (s : ValueStack) :
    (recover i line).run s = (.ok [.ret], s) := by
  unfold recover
  simp only [h]
  rfl

theorem run_recover_nop {i : Instruction} (h : i.kind = .nop) (line : Nat) (s : ValueStack) :
    (recover i line).run s = (.ok [], s) := by
  unfold recover
  simp only [h]
  rfl

theorem run_recover_call {i : Instruction} (h : i.kind = .callFunction) (line : Nat) (e : Expr)
    (s : ValueStack) : (recover i line).run (e :: s) = (.ok [.call "System" "call_function"
      [.num (i.opcode.code - callEntry.code).toUInt32, e]], s) := by
  unfold recover
  simp only [h]
  rfl

theorem run_recover_wait {i : Instruction} (h : i.opcode = .wait) (line : Nat) (args : List Expr)
    (s : ValueStack) :
    (recover i line).run (.call (.path "System" "wait_frames") args :: s) =
      (.ok [.call "System" "wait" args], s) := by
  have hk : i.kind = .generic := by rw [Instruction.kind, h]; decide
  unfold recover
  simp only [hk, h, if_true]
  rfl

end Recovery

/-! ## Calls as statements -/

namespace Lowering

theorem callStmt_function {qualifier name : String} {op : Opcode}
    (hf : Opcode.ofFunction? qualifier name = some op) (hw : op ≠ .wait)
    (hp : op.entry.pushesResult = false) (args : List Expr) :
    callStmt qualifier name args = applied op args.length (ofExprs args) := by
  unfold callStmt
  split
  · rw [Opcode.ofFunction?_callFunction] at hf
    cases hf
  · rw [Opcode.ofFunction?_write] at hf
    cases hf
  · rw [Opcode.ofFunction?_wait] at hf
    exact absurd (Option.some.inj hf).symm hw
  · simp [hf, hp]

theorem takesArguments_function {e : Expr} {qualifier name : String} {args : List Expr}
    {op : Opcode} (he : e.pathCall? = some (qualifier, name, args))
    (hf : Opcode.ofFunction? qualifier name = some op) :
    Script.takesArguments e = decide (0 < op.entry.pops) := by
  have hs : ¬ (qualifier = "System" ∧ name = "call_function") := by
    rintro ⟨rfl, rfl⟩
    rw [Opcode.ofFunction?_callFunction] at hf
    cases hf
  have hm : ¬ (qualifier = "Memory" ∧ name = "write") := by
    rintro ⟨rfl, rfl⟩
    rw [Opcode.ofFunction?_write] at hf
    cases hf
  simp only [Script.takesArguments, he, hf]
  simp [hs, hm]

/-- The calls that have code as statements. -/
inductive CallCode : String → String → List Expr → List CodeItem → Prop
  | callFunction {id entity : Expr} {number : Nat} {op : Opcode} {c : List CodeItem}
      (found : Opcode.ofCall? number = some op) (value : ofExpr entity = ⟨c, none⟩) :
      CallCode "System" "call_function" [id, entity] (c ++ [.bare op])
  | write {target value : Expr} {c : List CodeItem} (values : ofExprs [target, value] = ⟨c, none⟩) :
      CallCode "Memory" "write" [target, value] (c ++ [.bare .write])
  | wait {frames : Expr} {c : List CodeItem} (value : ofExpr frames = ⟨c, none⟩) :
      CallCode "System" "wait" [frames] (c ++ [.bare .waitFrames, .bare .wait])
  | function {qualifier name : String} {args : List Expr} {op : Opcode} {c : List CodeItem}
      (found : Opcode.ofFunction? qualifier name = some op) (other : op ≠ .wait)
      (silent : op.entry.pushesResult = false) (length : args.length = op.entry.pops)
      (values : ofExprs args = ⟨c, none⟩) : CallCode qualifier name args (c ++ [.bare op])

theorem callCode_of_callFunction {args : List Expr} {c : List CodeItem}
    (h : callFunction args = ⟨c, none⟩) : CallCode "System" "call_function" args c := by
  unfold callFunction at h
  split at h
  · split at h
    · cases h
    · split at h
      · cases h
      · next op ho =>
        obtain ⟨c', hc, rfl⟩ := Fragment.append_emit_eq.mp h
        exact .callFunction ho hc
  · cases h

theorem callCode_of_function {qualifier name : String} {args : List Expr} {op : Opcode}
    {c : List CodeItem} (hf : Opcode.ofFunction? qualifier name = some op)
    (hw : ¬ (qualifier = "System" ∧ name = "wait")) (hp : op.entry.pushesResult = false)
    (h : applied op args.length (ofExprs args) = ⟨c, none⟩) : CallCode qualifier name args c := by
  unfold applied at h
  split at h
  · next hlen =>
    obtain ⟨c', hc, rfl⟩ := Fragment.append_emit_eq.mp h
    refine .function hf ?_ hp hlen hc
    rintro rfl
    obtain ⟨-, hq, hn, -⟩ := Opcode.exists_row_of_ofFunction? hf
    exact hw ⟨hq.symm.trans (by decide), hn.symm.trans (by decide)⟩
  · cases h

theorem callCode_of_callStmt {qualifier name : String} {args : List Expr} {c : List CodeItem}
    (h : callStmt qualifier name args = ⟨c, none⟩) : CallCode qualifier name args c := by
  unfold callStmt at h
  split at h
  · exact callCode_of_callFunction h
  · split at h
    · rw [assign_eq] at h
      obtain ⟨c', hc, rfl⟩ := Fragment.append_emit_eq.mp h
      exact .write hc
    · cases h
  · split at h
    · next frames =>
      obtain ⟨c', hw, rfl⟩ := Fragment.append_emit_eq.mp h
      obtain ⟨c'', hc, rfl⟩ := Fragment.append_emit_eq.mp hw
      rw [List.append_assoc]
      exact .wait hc
    · cases h
  · next hnw =>
    split at h
    · cases h
    · next op hf =>
      split at h
      · cases h
      · next hp => exact callCode_of_function hf (fun hw => hnw hw.1 hw.2) (by simpa using hp) h

end Lowering

/-- Calls that recovery drops. -/
def Expr.isIdle (e : Expr) : Bool :=
  match e.pathCall? with
  | some (qualifier, name, _) =>
    qualifier == "System" && (name == "noop" || name == "reset_stack")
  | none => false

theorem Opcode.row_idle : ∀ e ∈ table, e.kind = .nop ∨ e.kind = .reset →
    e.subsystem.name = "System" ∧ (e.name = "noop" ∨ e.name = "reset_stack") := by
  decide +kernel

/-- Only idle calls lead to opcodes that complete no statement. -/
theorem Expr.isIdle_of_kind {e : Expr} {qualifier name : String} {args : List Expr} {op : Opcode}
    (he : e.pathCall? = some (qualifier, name, args))
    (hf : Opcode.ofFunction? qualifier name = some op) (hk : op.kind = .nop ∨ op.kind = .reset) :
    e.isIdle = true := by
  obtain ⟨-, hq, hn, i, rfl⟩ := Opcode.exists_row_of_ofFunction? hf
  obtain ⟨h1, h2⟩ := Opcode.row_idle _ (List.get_mem table i) hk
  have hq' : qualifier = "System" := hq.symm.trans h1
  have hn' : name = "noop" ∨ name = "reset_stack" := by
    rw [← hn]
    exact h2
  rw [Expr.isIdle, he]
  simp [hq', hn']

/-- `items` are the code of a phrase that completes statements; it is faithful unless `idle`. -/
def IsPhrase (items : List CodeItem) (idle : Bool) : Prop :=
  ∃ init last ss, Phrase init last (.stmts ss) ∧
    items = (init ++ [last]).map .ofInstruction ∧
    (idle = false → Finish.Faithful (init ++ [last]) (.stmts ss))

/-- A reset, values and an instruction that takes them all are the phrase of a statement which
has this very code. -/
theorem isPhrase_ofLoads {code : List Instruction} {es : List Expr} (h : Loads code es)
    (op : Opcode) {s : Stmt} (hj : op.kind.isJump = false) (ha : op.kind.arity = 0)
    (hr : ∀ line, (recover ⟨op, []⟩ line).run es.reverse = (.ok [s], [])) (idle : Bool)
    (hl : ∀ n, Lowers n [s] (.bare .reset :: code.map .ofInstruction ++ [.bare op]) n) :
    IsPhrase (.bare .reset :: code.map .ofInstruction ++ [.bare op]) idle := by
  have he : (.bare .reset :: code.map .ofInstruction ++ [.bare op] : List CodeItem) =
      ((⟨.reset, []⟩ :: code ++ [⟨op, []⟩] : List Instruction)).map .ofInstruction := by
    simp [CodeItem.ofInstruction, CodeItem.bare]
  refine ⟨_, _, [s], Phrase.ofLoads h op hj ha hr, he, fun _ n => ?_⟩
  rw [← he]
  exact hl n

theorem isPhrase_assign {target value : Expr} {c : List CodeItem}
    (h : ofExprs [target, value] = ⟨c, none⟩) (idle : Bool) :
    IsPhrase (.bare .reset :: c ++ [.bare .write]) idle := by
  obtain ⟨code, es, hlen, hl, hc⟩ := exists_loadsAll [target, value] (by rw [h])
  match es, hlen with
  | [x, y], _ =>
    rw [hc] at h
    cases h
    exact isPhrase_ofLoads hl .write (by rw [Opcode.kind_write]; rfl)
      (by rw [Opcode.kind_write]; rfl)
      (fun line => run_recover_write (i := ⟨.write, []⟩) Opcode.kind_write line x y []) idle
      (fun n => lowers_assign.mpr ⟨_, hl.lowers, rfl, rfl⟩)

theorem isPhrase_callFunction {entity : Expr} {number : Nat} {op : Opcode} {c : List CodeItem}
    (ho : Opcode.ofCall? number = some op) (h : ofExpr entity = ⟨c, none⟩) (idle : Bool) :
    IsPhrase (.bare .reset :: c ++ [.bare op]) idle := by
  obtain ⟨code, x, hl, hc⟩ := exists_loads entity (by rw [h])
  rw [hc] at h
  cases h
  obtain ⟨i, rfl⟩ := Opcode.exists_call_of_ofCall? ho
  refine isPhrase_ofLoads hl (.call i) rfl rfl
    (fun line => run_recover_call (i := ⟨.call i, []⟩) rfl line x []) idle
    (fun n => lowers_expr.mpr ⟨code.map .ofInstruction ++ [.bare (.call i)], ?_, rfl, rfl⟩)
  show callFunction [.num ((Opcode.call i).code - callEntry.code).toUInt32, x] = _
  have hlit : (Expr.num ((Opcode.call i).code - callEntry.code).toUInt32).literal? =
    some ((Opcode.call i).code - callEntry.code).toUInt32 := rfl
  rw [callFunction, hlit]
  simp only [Opcode.call_number i, hl.lowers_singleton]
  rfl

/-- `System.wait(frames)` counts frames and then waits. -/
theorem lowers_wait {frames : Expr} {c : List CodeItem} (h : ofExpr frames = ⟨c, none⟩) (n : Nat) :
    Lowers n [.call "System" "wait" [frames]]
      (.bare .reset :: c ++ [.bare .waitFrames, .bare .wait]) n := by
  refine lowers_expr.mpr ⟨c ++ [.bare .waitFrames, .bare .wait], ?_, ?_, rfl⟩
  · show ofExpr frames ++ .emit (.bare .waitFrames) ++ .emit (.bare .wait) = _
    rw [h, Fragment.append_assoc]
    rfl
  · rw [takesArguments_function rfl Opcode.ofFunction?_wait, if_pos (by decide)]
    rfl

/-- Frames that are counted and waited for come back as one call. -/
theorem isPhrase_wait {frames : Expr} {c : List CodeItem} (h : ofExpr frames = ⟨c, none⟩)
    (idle : Bool) : IsPhrase (.bare .reset :: c ++ [.bare .waitFrames, .bare .wait]) idle := by
  obtain ⟨code, x, hl, hc⟩ := exists_loads frames (by rw [h])
  rw [hc] at h
  cases h
  have hf : Opcode.ofFunction? "System" "wait_frames" = some .waitFrames := by decide
  have hb : ∀ bank width, Bank.ofName? "System" = some bank →
      Width.ofName? "wait_frames" ≠ some width := by
    intro bank width hbank
    have : Bank.ofName? "System" = none := by decide
    rw [this] at hbank
    cases hbank
  have hpops : Opcode.waitFrames.entry.pops = 1 := by decide
  have hw := hl.call hf (by decide) (by decide) hb hpops.symm
  have hr : ∀ line, (recover ⟨.wait, []⟩ line).run [callOf .waitFrames [x]].reverse =
      (.ok [.call "System" "wait" [x]], []) := by
    intro line
    have hn : Opcode.waitFrames.entry.subsystem.name = "System" ∧
      Opcode.waitFrames.entry.name = "wait_frames" := by decide
    rw [callOf, hn.1, hn.2]
    exact run_recover_wait (i := ⟨.wait, []⟩) rfl line [x] []
  have he : (.bare .reset :: code.map .ofInstruction ++ [.bare .waitFrames, .bare .wait] :
      List CodeItem) = .bare .reset ::
        (code ++ [(⟨.waitFrames, []⟩ : Instruction)]).map .ofInstruction ++ [.bare .wait] := by
    simp [CodeItem.ofInstruction, CodeItem.bare]
  have hlow := lowers_wait hl.lowers_singleton
  rw [he] at hlow ⊢
  exact isPhrase_ofLoads hw .wait (by decide) (by decide) hr idle hlow

/-- A call of the engine comes back with the values loaded for it. -/
theorem isPhrase_generic {qualifier name : String} {op : Opcode} {code : List Instruction}
    {es : List Expr} (hf : Opcode.ofFunction? qualifier name = some op) (hw : op ≠ .wait)
    (hp : op.entry.pushesResult = false) (hk : op.kind = .generic)
    (hlen : es.length = op.entry.pops) (hl : Loads code es) (idle : Bool) :
    IsPhrase ((if 0 < op.entry.pops then [.bare .reset] else []) ++
      (code.map .ofInstruction ++ [.bare op])) idle := by
  obtain ⟨-, hq, hn, -⟩ := Opcode.exists_row_of_ofFunction? hf
  have hj : op.kind.isJump = false := by rw [hk]; rfl
  have ha : op.kind.arity = 0 := by rw [hk]; rfl
  have hr : ∀ line, (recover ⟨op, []⟩ line).run es.reverse =
      (.ok [.expr (callOf op es)], []) := by
    intro line
    have := run_recover_generic (i := ⟨op, []⟩) hk hw hlen line []
    rw [List.append_nil, if_neg (by rw [hp]; decide)] at this
    exact this
  have hlow : ∀ n, Lowers n [.expr (callOf op es)]
      ((if 0 < op.entry.pops then [.bare .reset] else []) ++
        (code.map .ofInstruction ++ [.bare op])) n := by
    intro n
    rw [callOf, hq, hn]
    refine lowers_expr.mpr ⟨code.map .ofInstruction ++ [.bare op], ?_, ?_, rfl⟩
    · show callStmt qualifier name es = _
      rw [callStmt_function hf hw hp, applied, if_pos hlen, hl.lowers]
      rfl
    · rw [takesArguments_function rfl hf]
      simp only [decide_eq_true_eq]
  by_cases hpos : 0 < op.entry.pops
  · rw [if_pos hpos] at hlow ⊢
    exact isPhrase_ofLoads hl op hj ha hr _ hlow
  · rw [if_neg hpos, List.nil_append] at hlow ⊢
    obtain rfl : es = [] := List.eq_nil_of_length_eq_zero (by omega)
    obtain rfl : code = [] := hl.eq_nil
    exact ⟨[], ⟨op, []⟩, _, Phrase.single hj ha hr, rfl, fun _ => hlow⟩

/-- An idle call is a phrase that completes nothing. -/
theorem isPhrase_idle {op : Opcode} (hk : op.kind = .nop ∨ op.kind = .reset) :
    IsPhrase [.bare op] true := by
  refine ⟨[], ⟨op, []⟩, [], ?_, rfl, fun h => by cases h⟩
  rcases hk with hk | hk
  · exact Phrase.single (by rw [hk]; rfl) (by rw [hk]; rfl)
      fun line => run_recover_nop (i := ⟨op, []⟩) hk line []
  · exact Phrase.single (by rw [hk]; rfl) (by rw [hk]; rfl)
      fun line => run_recover_reset (i := ⟨op, []⟩) hk line []

/-- A call of the engine, of an assignment, or one that is idle. -/
theorem isPhrase_function {e : Expr} {qualifier name : String} {args : List Expr} {op : Opcode}
    {c : List CodeItem} (he : e.pathCall? = some (qualifier, name, args))
    (hf : Opcode.ofFunction? qualifier name = some op) (hw : op ≠ .wait)
    (hp : op.entry.pushesResult = false) (hlen : args.length = op.entry.pops)
    (h : ofExprs args = ⟨c, none⟩) :
    IsPhrase ((if 0 < op.entry.pops then [.bare .reset] else []) ++ (c ++ [.bare op]))
      e.isIdle := by
  obtain ⟨code, es, hes, hl, hc⟩ := exists_loadsAll args (by rw [h])
  rw [hc] at h
  cases h
  rcases Opcode.kind_of_not_pushesResult hf hp with hk | ⟨hk, h2⟩ | ⟨hk, h0⟩
  · exact isPhrase_generic hf hw hp hk (hes.trans hlen) hl _
  · obtain rfl : op = .write := Opcode.eq_of_kind (by rw [hk, Opcode.kind_write])
      (by rw [hk]; simp) (by rw [hk]; simp)
    rw [if_pos (by omega)]
    obtain ⟨x, more, rfl⟩ := List.exists_cons_of_length_eq_add_one (hlen.trans h2)
    obtain ⟨y, rfl⟩ := List.length_eq_one_iff.mp (Nat.succ.inj (hlen.trans h2))
    exact isPhrase_assign hc _
  · rw [if_neg (by omega), List.nil_append]
    obtain rfl : es = [] := List.eq_nil_of_length_eq_zero (by omega)
    obtain rfl : code = [] := hl.eq_nil
    rw [Expr.isIdle_of_kind he hf hk]
    exact isPhrase_idle hk

/-- **Statements come back.**  An expression statement with code is a phrase, faithful unless it
is idle. -/
theorem isPhrase_expr {e : Expr} {c : List CodeItem} (h : exprStmt e = ⟨c, none⟩) :
    IsPhrase ((if Script.takesArguments e then [.bare .reset] else []) ++ c) e.isIdle := by
  unfold exprStmt at h
  cases he : e.pathCall? with
  | none =>
    rw [he] at h
    cases h
  | some call =>
    obtain ⟨qualifier, name, args⟩ := call
    simp only [he] at h
    cases callCode_of_callStmt h with
    | callFunction found value =>
      have ht : Script.takesArguments e = true := by simp [Script.takesArguments, he]
      rw [ht]
      exact isPhrase_callFunction found value _
    | write values =>
      have ht : Script.takesArguments e = true := by simp [Script.takesArguments, he]
      rw [ht]
      exact isPhrase_assign values _
    | wait value =>
      have ht : Script.takesArguments e = true := by
        rw [takesArguments_function he Opcode.ofFunction?_wait]
        decide
      rw [ht]
      exact isPhrase_wait value _
    | function found other silent length values =>
      rw [takesArguments_function he found]
      simpa using isPhrase_function he found other silent length values

/-! ## The other statements -/

theorem phrase_goto (t : Nat) (ht : t < 0x10000) :
    Phrase [] ⟨.goto, [UInt16.ofNat t]⟩ (.goto t) where
  closed := ⟨[], rfl, Opcode.kind_goto, by
    rw [Instruction.target?_of_isJump (by rw [Instruction.kind, Opcode.kind_goto]; rfl)]
    simp [Nat.mod_eq_of_lt ht], rfl⟩
  wellFormed := Phrase.wellFormed_snoc (by simp) (by rw [Opcode.kind_goto]; rfl)

theorem phrase_ret : IsPhrase [.bare .ret] false :=
  ⟨[], ⟨.ret, []⟩, [.ret],
    Phrase.single (by rw [Opcode.kind_ret]; rfl) (by rw [Opcode.kind_ret]; rfl)
      fun line => run_recover_ret (i := ⟨.ret, []⟩) Opcode.kind_ret line [],
    rfl, fun _ _ => lowers_ret.mpr ⟨rfl, rfl⟩⟩

/-- The code ahead of the body of a condition. -/
theorem exists_phrase_branch {condition : Expr} {c : List CodeItem}
    (h : ofExpr condition = ⟨c, none⟩) (t : Nat) (ht : t < 0x10000) :
    ∃ load e, c = load.map .ofInstruction ∧
      Phrase (⟨.reset, []⟩ :: load) ⟨.gotoIfFalse, [UInt16.ofNat t]⟩ (.branch e t) ∧
      Finish.Faithful (⟨.reset, []⟩ :: load ++ [⟨.gotoIfFalse, [UInt16.ofNat t]⟩])
        (.branch e t) := by
  obtain ⟨load, e, hl, hc⟩ := exists_loads condition (by rw [h])
  rw [hc] at h
  cases h
  refine ⟨load, e, rfl, ⟨⟨[e], Phrase.replays_reset hl [], Opcode.kind_gotoIfFalse, ?_, rfl⟩, ?_⟩,
    ht, load, hl.lowers_singleton, rfl⟩
  · rw [Instruction.target?_of_isJump (by rw [Instruction.kind, Opcode.kind_gotoIfFalse]; rfl)]
    simp [Nat.mod_eq_of_lt ht]
  · exact Phrase.wellFormed_snoc (Phrase.wellFormed_reset hl)
      (by rw [Opcode.kind_gotoIfFalse]; rfl)

end MapScript
