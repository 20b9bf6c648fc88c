import MapScript.Proofs.Trace

/-!
# Why recovery fails

A computation on the stack fails only where it takes a value that is not there (`Underflows`).  The
walk over a program also looks for the targets of jumps; in a program whose jumps land it finds
them, so that there an underflow is all that can go wrong (`isUnderflow_of_walk`).
-/

namespace MapScript

def RecoveryError.IsUnderflow (e : RecoveryError) : Prop :=
  ∃ line mnemonic needed found, e = .stackUnderflow line mnemonic needed found

/-! ## Computations on the stack -/

namespace Recovery

/-- The computation fails by an underflow, if it fails. -/
def Underflows {α : Type} (x : StackM α) : Prop :=
  ∀ s e s', x.run s = (.error e, s') → e.IsUnderflow

namespace Underflows

variable {α β : Type}

theorem pure (a : α) : Underflows (Pure.pure a : StackM α) := by
  intro s e s' h
  cases h

theorem bind {x : StackM α} {f : α → StackM β} (hx : Underflows x) (hf : ∀ a, Underflows (f a)) :
    Underflows (x >>= f) := by
  intro s e s' h
  rcases run_bind_eq_error h with hr | ⟨a, s1, -, hr⟩
  · exact hx s e s' hr
  · exact hf a s1 e s' hr

theorem push (e : Expr) : Underflows (ValueStack.push e) := by
  intro s e' s' h
  cases h

theorem clear : Underflows ValueStack.clear := by
  intro s e s' h
  cases h

variable (line : Nat) (op : Opcode)

theorem pop : Underflows (ValueStack.pop line op) := by
  intro s e s' h
  cases s with
  | nil =>
    cases h
    exact ⟨line, op.mnemonic, 1, 0, rfl⟩
  | cons x s => cases h

theorem takePair : Underflows (ValueStack.takePair line op) := by
  intro s e s' h
  match s with
  | [] | [_] =>
    cases h
    exact ⟨line, op.mnemonic, 2, _, rfl⟩
  | _ :: _ :: _ => cases h

theorem takeTop (n : Nat) : Underflows (ValueStack.takeTop n line op) := by
  intro s e s' h
  by_cases hlt : s.length < n
  · rw [ValueStack.run_takeTop_of_lt hlt] at h
    cases h
    exact ⟨line, op.mnemonic, n, s.length, rfl⟩
  · rw [ValueStack.run_takeTop_of_le (by omega)] at h
    cases h

theorem recoverCall : Underflows (recoverCall line op) := by
  refine .bind (takeTop line op _) fun args => ?_
  split
  · exact .bind (.push _) fun _ => .pure _
  · exact .pure _

theorem recoverWait : Underflows (recoverWait line op) := by
  have hget : Underflows (get : StackM ValueStack) := by
    intro s e s' h
    cases h
  refine .bind hget fun s => ?_
  split
  · exact .bind (pop line op) fun _ => .pure _
  · exact recoverCall line op

theorem recover (i : Instruction) : Underflows (recover i line) := by
  unfold Recovery.recover
  cases i.kind with
  | nop | ret | goto | gotoIfFalse => exact .pure _
  | reset => exact .bind clear fun _ => .pure _
  | push source => exact .bind (.push _) fun _ => .pure _
  | math m =>
    cases hm : Operator.ofMath m with
    | unary u =>
      simp only [hm]
      exact .bind (pop line i.opcode) fun _ => .bind (.push _) fun _ => .pure _
    | binary b =>
      simp only [hm]
      exact .bind (takePair line i.opcode) fun _ => .bind (.push _) fun _ => .pure _
  | write => exact .bind (pop line i.opcode) fun _ => .bind (pop line i.opcode) fun _ => .pure _
  | callFunction => exact .bind (pop line i.opcode) fun _ => .pure _
  | generic =>
    by_cases hw : i.opcode = .wait
    · simp only [hw, if_true]
      exact recoverWait line _
    · simp only [hw, if_false]
      exact recoverCall line _

end Underflows

end Recovery

/-! ## The walk over a program -/

open Structured Recovery

/-- Jumps have a target, which is a line or the end. -/
def Program.Landing (p : Program) : Prop :=
  ∀ l ∈ p.lines, l.insn.kind.isJump = true → ∃ t, l.insn.target? = some t ∧
    (t = p.stop ∨ ∃ l' ∈ p.lines, l'.offset = t)

/-- In code that is accepted jumps land, if instructions have all their operands. -/
theorem Program.landing_of_build {start : Nat} {code : List Instruction} {p : Program}
    (h : build start code = .ok p) (hw : ∀ i ∈ code, i.wellFormed = true) : p.Landing := by
  obtain ⟨rfl, hn⟩ := build_eq_ok.mp h
  intro l hl hj
  obtain ⟨t, ht⟩ := Instruction.exists_target? (hw _ (insn_mem_of_mem_lines hl)) hj
  exact ⟨t, ht, hn.lands l hl t ht⟩

section

variable {p : Program} (hp : p.Landing)
include hp

theorem targetOf_ne_error {x : Numbered} (hx : x.1 ∈ p.lines) (hj : x.1.insn.kind.isJump = true)
    {e : RecoveryError} : targetOf x.1.insn x.2 ≠ .error e := by
  obtain ⟨t, ht, -⟩ := hp x.1 hx hj
  rw [targetOf, ht]
  exact nofun

theorem resumeAt_ne_error {x : Numbered} (hx : x.1 ∈ p.lines) (hj : x.1.insn.kind.isJump = true)
    {t : Nat} (ht : targetOf x.1.insn x.2 = .ok t) {e : RecoveryError} :
    resumeAt p x.2 t ≠ .error e := by
  obtain ⟨t', ht', hland⟩ := hp x.1 hx hj
  rw [targetOf, ht'] at ht
  cases ht
  unfold resumeAt
  split
  · exact nofun
  · next hne =>
    obtain ⟨i, hi⟩ := Option.isSome_iff_exists.mp
      (Program.indexOf?_isSome_iff.mpr (hland.resolve_left hne))
    rw [hi]
    exact nofun

/-- A visit underflows, if the walk of its body does. -/
theorem isUnderflow_of_visit {walk : BodyWalk} {x : Numbered} (hx : x.1 ∈ p.lines)
    (hw : ∀ t st e, walk t st = .error e → e.IsUnderflow) {st : State} {e : RecoveryError}
    (h : visit p walk x.1 x.2 st = .error e) : e.IsUnderflow := by
  unfold visit at h
  cases hk : x.1.insn.kind with
  | goto =>
    have hj : x.1.insn.kind.isJump = true := by rw [hk]; rfl
    simp only [hk, bind_eq_error] at h
    rcases h with h | ⟨t, ht, h | ⟨r, -, h⟩⟩
    · exact absurd h (targetOf_ne_error hp hx hj)
    · exact absurd h (resumeAt_ne_error hp hx hj ht)
    · cases h
  | gotoIfFalse =>
    have hj : x.1.insn.kind.isJump = true := by rw [hk]; rfl
    rcases hpop : (ValueStack.pop (x.2 + 1) x.1.insn.opcode).run st.stack with ⟨popped, stack⟩
    simp only [hk, hpop, bind_eq_error] at h
    rcases h with rfl | ⟨c, -, h | ⟨t, ht, h | ⟨body, -, h | ⟨r, -, h⟩⟩⟩⟩
    · exact Underflows.pop _ _ _ _ _ hpop
    · exact absurd h (targetOf_ne_error hp hx hj)
    · exact hw _ _ _ h
    · exact absurd h (resumeAt_ne_error hp hx hj ht)
    · cases h
  | _ =>
    rcases hr : (recover x.1.insn (x.2 + 1)).run st.stack with ⟨recovered, stack⟩
    simp only [hk, hr, bind_eq_error] at h
    rcases h with rfl | ⟨core, -, h⟩
    · exact Underflows.recover _ _ _ _ _ hr
    · cases h

theorem isUnderflow_of_walkBody {lines : List Numbered} (hl : ∀ x ∈ lines, x.1 ∈ p.lines)
    {target : Nat} {st : State} {e : RecoveryError} (h : walkBody p lines target st = .error e) :
    e.IsUnderflow := by
  induction lines generalizing target st e with
  | nil => cases h
  | cons x rest ih =>
    have ih := fun target st e => @ih (fun y hy => hl y (List.mem_cons_of_mem _ hy)) target st e
    rw [walkBody] at h
    split at h
    · split at h
      · exact ih _ _ _ h
      · simp only [bind_eq_error] at h
        rcases h with h | ⟨y, -, h | ⟨z, -, h⟩⟩
        · exact isUnderflow_of_visit hp (hl x List.mem_cons_self) ih h
        · exact ih _ _ _ h
        · cases h
    · cases h

/-- **Where jumps land, only an underflow stops the walk.** -/
theorem isUnderflow_of_walk {visits index : Nat} {st : State} {e : RecoveryError}
    (h : walk p visits index st = .error e) : e.IsUnderflow := by
  induction visits generalizing index st with
  | zero => cases h
  | succ visits ih =>
    rw [walk] at h
    split at h
    · cases h
    · next line i rest hn =>
      obtain ⟨before, hz, -⟩ := nextUnvisited_spec (x := (line, i)) hn
      have hmem : ∀ x ∈ (line, i) :: rest, x.1 ∈ p.lines := by
        intro x hx
        exact List.fst_mem_of_mem_zipIdx (hz ▸ List.mem_append_right before hx)
      rcases bind_eq_error.mp h with h | ⟨⟨ss, r, st1⟩, -, h⟩
      · exact isUnderflow_of_visit (x := (line, i)) hp (hmem _ List.mem_cons_self)
          (fun _ _ _ => isUnderflow_of_walkBody hp fun x hx => hmem x (List.mem_cons_of_mem _ hx)) h
      · simp only at h
        split at h
        · cases h
        · rcases bind_eq_error.mp h with h | ⟨more, -, h⟩
          · exact ih h
          · cases h

end

end MapScript
