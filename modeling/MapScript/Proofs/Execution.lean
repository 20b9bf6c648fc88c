import Mathlib.Logic.Relation
import MapScript.Proofs.Depth
import MapScript.Proofs.Division

/-!
# Running code

`Execution.Step start code` runs one instruction of code that stands at `start`.  Of the machine it
keeps the offset of the next instruction and the depth of the stack; which way a condition goes is
left open.  Every path through the code of a script finds the values that its instructions take,
whatever the stack held at first (`Script.pops_le_depth`).

The argument goes by stretches (`Execution.Safe`): where one starts nothing is asked of the stack,
and within one the stack is at least as deep as the stack of expressions that recovery builds from
the empty one.
-/

namespace MapScript

open Recovery

/-! ## Lines that follow one another -/

theorem numbered_behind {base index : Nat} {code : List Instruction} {before after : List Numbered}
    {x : Numbered} (h : numbered base index code = before ++ x :: after) :
    after = numbered (x.1.offset + x.1.insn.width) (x.2 + 1) (after.map (·.1.insn)) ∧
      x.1.offset + x.1.insn.width + codeWidth (after.map (·.1.insn)) =
        base + codeWidth code := by
  induction before generalizing base index code with
  | nil =>
    cases code with
    | nil => cases h
    | cons i code =>
      rw [numbered, List.nil_append, List.cons.injEq] at h
      obtain ⟨rfl, rfl⟩ := h
      rw [map_insn_numbered, codeWidth_cons]
      exact ⟨rfl, Nat.add_assoc base i.width (codeWidth code)⟩
  | cons y before ih =>
    cases code with
    | nil => cases h
    | cons i code =>
      rw [numbered, List.cons_append, List.cons.injEq] at h
      obtain ⟨h1, h2⟩ := ih h.2
      rw [codeWidth_cons]
      exact ⟨h1, by omega⟩

theorem eq_of_offset_eq {base index : Nat} {code : List Instruction} {x y : Numbered}
    (hx : x ∈ numbered base index code) (hy : y ∈ numbered base index code)
    (h : x.1.offset = y.1.offset) : x = y := by
  have hp := numbered_pairwise base index code
  refine List.Pairwise.forall_of_forall_of_flip
    (R := fun x y : Numbered => x.1.offset = y.1.offset → x = y) (fun _ _ _ => rfl)
    (hp.imp fun hb he => ?_) (hp.imp fun hb he => ?_) hx hy h
  · exact absurd he (Nat.ne_of_lt hb.1)
  · exact absurd he.symm (Nat.ne_of_lt hb.1)

theorem mem_place {start : Nat} {code : List Instruction} {l : Line} :
    l ∈ Program.place start code ↔ ∃ x ∈ numbered start 0 code, x.1 = l := by
  have h : Program.place start code = (numbered start 0 code).map Prod.fst :=
    Program.lines_ofInstructions start code
  rw [h, List.mem_map]

namespace Execution

/-! ## Steps -/

/-- What is kept of the machine: where it goes on, and how many values the stack holds. -/
structure Point where
  offset : Nat
  depth : Nat

/-- Runs the instruction at a point.  Nothing follows a return, or the end of the code. -/
inductive Step (start : Nat) (code : List Instruction) : Point → Point → Prop
  /-- To the next instruction, also from a condition that holds. -/
  | next {l : Line} {depth : Nat} (here : l ∈ Program.place start code)
      (goto : l.insn.kind ≠ .goto) (ret : l.insn.kind ≠ .ret) :
      Step start code ⟨l.offset, depth⟩ ⟨l.offset + l.insn.width, l.insn.depthAfter depth⟩
  /-- To the target of a jump, also from a condition that fails. -/
  | jump {l : Line} {depth target : Nat} (here : l ∈ Program.place start code)
      (goes : l.insn.target? = some target) :
      Step start code ⟨l.offset, depth⟩ ⟨target, l.insn.depthAfter depth⟩

/-- Paths through the code. -/
abbrev Path (start : Nat) (code : List Instruction) : Point → Point → Prop :=
  Relation.ReflTransGen (Step start code)

/-! ## Safe points -/

/-- The point is at a line of a stretch, and the stack is as deep as the lines before it need, or
it is at the end of the code. -/
def Safe (ss : List Stretch) (start : Nat) (code : List Instruction) (q : Point) : Prop :=
  q.offset = start + codeWidth code ∨
    ∃ s ∈ ss, ∃ before x after, s.lines = before ++ x :: after ∧ x.1.offset = q.offset ∧
      ∀ stack, Replays (before.map (·.1.insn)) [] stack → stack.length ≤ q.depth

end Execution

namespace Recovery

theorem Replays.exists_append {xs ys : List Instruction} {s s' : ValueStack}
    (h : Replays (xs ++ ys) s s') : ∃ s1, Replays xs s s1 ∧ Replays ys s1 s' := by
  induction xs generalizing s with
  | nil => exact ⟨s, rfl, h⟩
  | cons i xs ih =>
    obtain ⟨hj, s1, hi, hrest⟩ := h
    obtain ⟨s2, hx, hy⟩ := ih hrest
    exact ⟨s2, ⟨hj, s1, hi, hx⟩, hy⟩

end Recovery

namespace Finish

/-- What a phrase ends in finds its values on the stack. -/
theorem Ends.pops_le {finish : Finish} {last : Instruction} {stack : ValueStack}
    (h : finish.Ends last stack) : last.opcode.entry.pops ≤ stack.length := by
  cases finish with
  | stmts ss => exact (depth_of_recovers h.1 (recovers_of_run (h.2 0))).1
  | goto t =>
    have he : last.opcode.kind.effect? = some (0, false) := by
      rw [show last.opcode.kind = .goto from h.1]
      rfl
    rw [(Opcode.effect_of_kind he).1]
    exact Nat.zero_le _
  | branch c t =>
    have he : last.opcode.kind.effect? = some (1, false) := by
      rw [show last.opcode.kind = .gotoIfFalse from h.1]
      rfl
    rw [(Opcode.effect_of_kind he).1, h.2.2]
    exact Nat.le_refl 1

end Finish

namespace Stretch

variable {s : Stretch} {before after : List Numbered} {x : Numbered}

/-- A line of a stretch is among those before the last one, or the last one. -/
theorem split_cases (h : s.lines = before ++ x :: after) :
    (∃ y rest, after = y :: rest ∧ s.init = before ++ x :: (y :: rest).dropLast) ∨
      after = [] ∧ before = s.init ∧ x = s.last := by
  rw [lines] at h
  cases after with
  | nil =>
    obtain ⟨h1, h2⟩ := List.append_inj' h rfl
    exact .inr ⟨rfl, h1.symm, (List.cons.inj h2).1.symm⟩
  | cons y rest =>
    refine .inl ⟨y, rest, rfl, ?_⟩
    have hd := congrArg List.dropLast h
    rw [List.dropLast_concat, List.dropLast_append_of_ne_nil (by simp),
      List.dropLast_cons_of_ne_nil (by simp)] at hd
    exact hd

/-- The stack of expressions in front of a line holds what the line takes. -/
theorem exists_replays (h : s.lines = before ++ x :: after) :
    ∃ stack, Replays (before.map (·.1.insn)) [] stack ∧
      x.1.insn.opcode.entry.pops ≤ stack.length := by
  obtain ⟨stack, hr, he⟩ := s.phrase.closed
  rcases split_cases h with ⟨y, rest, rfl, hinit⟩ | ⟨rfl, rfl, rfl⟩
  · rw [hinit, List.map_append, List.map_cons] at hr
    obtain ⟨s1, hb, hj, s2, hx, -⟩ := hr.exists_append
    exact ⟨s1, hb, (depth_of_recovers hj (recovers_of_run (hx 0))).1⟩
  · exact ⟨stack, hr, he.pops_le⟩

end Stretch

namespace Divides

open Execution

variable {ss : List Stretch} {start : Nat} {code : List Instruction}

/-- Where jumps go, and where one stretch ends and the next one starts, every stack is safe. -/
theorem safe_of_boundary {t : Nat} (ht : Boundary ss start code t)
    (depth : Nat) : Safe ss start code ⟨t, depth⟩ := by
  rcases ht with he | ⟨s, hs, rfl⟩
  · exact .inl he
  · obtain ⟨tail, htail⟩ := s.exists_lines_eq
    refine .inr ⟨s, hs, [], s.first, tail, htail, rfl, ?_⟩
    rintro stack ⟨⟩
    exact Nat.zero_le _

/-- A stretch ends where another one starts, or at the end of the code. -/
theorem boundary_behind (h : Divides ss start code) {s : Stretch} (hs : s ∈ ss) :
    Boundary ss start code (s.last.1.offset + s.last.1.insn.width) := by
  obtain ⟨ss1, ss2, rfl⟩ := List.append_of_mem hs
  have hlines : numbered start 0 code =
      (linesOf ss1 ++ s.init) ++ s.last :: linesOf ss2 := by
    rw [h.lines]
    simp [linesOf, Stretch.lines]
  obtain ⟨h1, h2⟩ := numbered_behind hlines
  cases ss2 with
  | nil => exact .inl h2
  | cons s' ss2 =>
    obtain ⟨tail, htail⟩ := s'.exists_lines_eq
    have hfirst : linesOf (s' :: ss2) = s'.first :: (tail ++ linesOf ss2) := by
      simp [linesOf, htail]
    rw [hfirst, List.map_cons, numbered, List.cons.injEq] at h1
    refine .inr ⟨s', by simp, ?_⟩
    rw [Stretch.offset, h1.1]

/-- Within a stretch the lines follow one another. -/
theorem offset_next (h : Divides ss start code) {s : Stretch} (hs : s ∈ ss)
    {before rest : List Numbered} {x y : Numbered} (hl : s.lines = before ++ x :: y :: rest) :
    y.1.offset = x.1.offset + x.1.insn.width := by
  obtain ⟨ss1, ss2, rfl⟩ := List.append_of_mem hs
  have hlines : numbered start 0 code =
      (linesOf ss1 ++ before) ++ x :: (y :: rest ++ linesOf ss2) := by
    rw [h.lines]
    simp [linesOf, hl]
  have h1 := (numbered_behind hlines).1
  rw [List.cons_append, List.map_cons, numbered, List.cons.injEq] at h1
  rw [h1.1]

/-- The line of a stretch at the offset of a point. -/
theorem eq_of_mem_place (h : Divides ss start code) {s : Stretch} (hs : s ∈ ss) {x : Numbered}
    (hx : x ∈ s.lines) {l : Line} (hl : l ∈ Program.place start code)
    (he : x.1.offset = l.offset) : x.1 = l := by
  obtain ⟨y, hy, rfl⟩ := mem_place.mp hl
  rw [eq_of_offset_eq (h.mem_lines.mpr ⟨s, hs, hx⟩) hy he]

/-- No line lies at the end of the code. -/
theorem offset_ne_stop {l : Line} (hl : l ∈ Program.place start code) :
    l.offset ≠ start + codeWidth code := by
  obtain ⟨x, hx, rfl⟩ := mem_place.mp hl
  exact Nat.ne_of_lt (mem_numbered hx).2.1

/-- **A step keeps points safe.** -/
theorem safe_of_step (h : Divides ss start code) {q r : Point} (hq : Safe ss start code q)
    (hstep : Step start code q r) : Safe ss start code r := by
  have hhere : ∃ l ∈ Program.place start code, q.offset = l.offset := by
    cases hstep with
    | next here => exact ⟨_, here, rfl⟩
    | jump here => exact ⟨_, here, rfl⟩
  obtain ⟨l, hl, hoff⟩ := hhere
  rcases hq with hstop | ⟨s, hs, before, x, after, hlines, hx, hdepth⟩
  · exact absurd (hoff.symm.trans hstop) (offset_ne_stop hl)
  · have hmem : x ∈ s.lines := by simp [hlines]
    cases hstep with
    | @jump line depth target here goes =>
      obtain rfl := h.eq_of_mem_place hs hmem here hx
      exact safe_of_boundary (h.lands s hs target (s.target?_of_mem hmem goes).2) _
    | @next line depth here goto ret =>
      obtain rfl := h.eq_of_mem_place hs hmem here hx
      rcases s.split_cases hlines with ⟨y, rest, rfl, hinit⟩ | ⟨-, -, rfl⟩
      · refine .inr ⟨s, hs, before ++ [x], y, rest, by simp [hlines], h.offset_next hs hlines, ?_⟩
        intro stack hstack
        rw [List.map_append] at hstack
        obtain ⟨s1, hb, hj, s2, hrun, hs2⟩ := hstack.exists_append
        cases hs2
        rw [(depth_of_recovers hj (recovers_of_run (hrun 0))).2]
        exact Instruction.depthAfter_mono _ (hdepth s1 hb)
      · exact safe_of_boundary (h.boundary_behind hs) _

theorem safe_of_path (h : Divides ss start code) {q r : Point} (hq : Safe ss start code q)
    (hpath : Path start code q r) : Safe ss start code r := by
  induction hpath with
  | refl => exact hq
  | tail _ hstep ih => exact h.safe_of_step ih hstep

/-- The start of the code is safe. -/
theorem safe_start (h : Divides ss start code) (depth : Nat) :
    Safe ss start code ⟨start, depth⟩ := by
  refine safe_of_boundary ?_ depth
  cases ss with
  | nil =>
    have hnil : numbered start 0 code = [] := h.lines
    have hcode : code = [] := by
      rw [← map_insn_numbered start 0 code, hnil]
      rfl
    exact .inl (by rw [hcode]; rfl)
  | cons s ss =>
    refine .inr ⟨s, List.mem_cons_self, ?_⟩
    obtain ⟨tail, htail⟩ := s.exists_lines_eq
    have hlines : numbered start 0 code = s.first :: (tail ++ linesOf ss) := by
      rw [h.lines]
      simp [linesOf, htail]
    cases code with
    | nil => cases hlines
    | cons i code =>
      rw [numbered, List.cons.injEq] at hlines
      rw [Stretch.offset, ← hlines.1]

/-- An instruction at a safe point finds its values. -/
theorem pops_le_of_safe (h : Divides ss start code) {q : Point} (hq : Safe ss start code q)
    {l : Line} (hl : l ∈ Program.place start code) (he : l.offset = q.offset) :
    l.insn.opcode.entry.pops ≤ q.depth := by
  rcases hq with hstop | ⟨s, hs, before, x, after, hlines, hx, hdepth⟩
  · exact absurd (he.trans hstop) (offset_ne_stop hl)
  · obtain rfl := h.eq_of_mem_place hs (x := x) (by simp [hlines]) hl (hx.trans he.symm)
    obtain ⟨stack, hr, hpops⟩ := s.exists_replays hlines
    exact Nat.le_trans hpops (hdepth stack hr)

end Divides

/-! ## Scripts -/

namespace Script

open Execution

/-- **The code of a script is stack-safe.**  On every path through it, from any depth of the stack
and whichever way conditions go, each instruction finds as many values as it takes; and the path
stays on the instructions of the code, or is at its end. -/
theorem pops_le_depth {start : Nat} {stmts : List Stmt} {code : List Instruction}
    (h : build start stmts = .ok code) (depth : Nat) {q : Point}
    (hpath : Path start code ⟨start, depth⟩ q) :
    (q.offset = codeEnd start code ∨ ∃ l ∈ Program.place start code, l.offset = q.offset) ∧
    ∀ l ∈ Program.place start code, l.offset = q.offset →
      l.insn.opcode.entry.pops ≤ q.depth := by
  obtain ⟨items, n, labels, o, stop, next, -, -, -, -, hd⟩ := exists_outlined_of_build h
  have hq := hd.safe_of_path (hd.safe_start depth) hpath
  refine ⟨?_, fun l hl he => hd.pops_le_of_safe hq hl he⟩
  rw [codeEnd_eq]
  rcases hq with he | ⟨s, hs, before, x, after, hlines, hx, -⟩
  · exact .inl he
  · exact .inr ⟨x.1, mem_place.mpr ⟨x, hd.mem_lines.mpr ⟨s, hs, by simp [hlines]⟩, rfl⟩, hx⟩

/-- A jump into the body of a condition. -/
def entering : List Stmt :=
  [.goto "inside", .ifThen (.num 1) [.label "inside", .call "System" "wait" [.num 5]]]

/-- The path into the body, up to the instruction that takes the number of frames. -/
theorem pops_le_depth_entering : ∃ code, build 0 entering = .ok code ∧
    Path 0 code ⟨0, 3⟩ ⟨10, 1⟩ ∧
    ∃ l ∈ Program.place 0 code, l.offset = 10 ∧ l.insn.opcode.entry.pops = 1 ∧
      l.insn.opcode.entry.pops ≤ 1 := by
  let code := (build 0 entering).toOption.getD []
  have hcode : build 0 entering = .ok code := by decide +kernel
  have hgoto : Step 0 code ⟨0, 3⟩ ⟨7, 3⟩ :=
    .jump (l := ⟨0, ⟨.goto, [7]⟩⟩) (by decide +kernel) (by decide +kernel)
  have hreset : Step 0 code ⟨7, 3⟩ ⟨8, 0⟩ :=
    .next (l := ⟨7, ⟨.reset, []⟩⟩) (by decide +kernel) (by decide) (by decide)
  let push : Opcode := (Opcode.ofKind? (.push .constant)).get (by decide)
  have hpush : Step 0 code ⟨8, 0⟩ ⟨10, 1⟩ :=
    .next (l := ⟨8, ⟨push, [5]⟩⟩) (by decide +kernel) (by decide) (by decide)
  have hpath : Path 0 code ⟨0, 3⟩ ⟨10, 1⟩ :=
    ((Relation.ReflTransGen.single hgoto).tail hreset).tail hpush
  have hmem : (⟨10, ⟨.waitFrames, []⟩⟩ : Line) ∈ Program.place 0 code := by decide +kernel
  exact ⟨code, hcode, hpath, _, hmem, rfl, by decide,
    (pops_le_depth hcode 3 hpath).2 _ hmem rfl⟩

end Script

end MapScript
