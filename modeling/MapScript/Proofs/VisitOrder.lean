import Mathlib.Data.List.Sort
import MapScript.Proofs.Rebuilt

/-!
# The order of recovered code

The walk follows jumps, so it may come to a line after lines that stand behind it.  A recovered
script then has its code in another order.  The opcodes that building it gives are those of the
lines that the walk takes, in the order of the visits (`exists_lines_of_recovered`).  Nothing is
made up or doubled, and the order is kept wherever the visits go upwards
(`visitedOpcodes_sublist`).
-/

namespace MapScript

open Structured Lowering Linking CodeItem Script

/-- The opcodes of a program in the order in which the walk visits them. -/
def Structured.visitedOpcodes (p : Program) : List Opcode :=
  (visitOrder p).filterMap fun i => p.lines[i]?.map (·.insn.opcode)

section

variable {start : Nat} {code : List Instruction}

/-- Lines are found by their numbers. -/
theorem filterMap_lines {lines : List Numbered} (h : ∀ x ∈ lines, x ∈ numbered start 0 code) :
    (lines.map (·.2)).filterMap (fun i =>
        (Program.ofInstructions start code).lines[i]?.map (·.insn.opcode)) =
      (lines.map (·.1.insn)).map Instruction.opcode := by
  induction lines with
  | nil => rfl
  | cons x lines ih =>
    have hx := h x List.mem_cons_self
    rw [← Program.zipIdx_lines, List.mem_zipIdx_iff_getElem?] at hx
    have ih := ih fun y hy => h y (List.mem_cons_of_mem _ hy)
    simp only [List.map_cons, List.filterMap_cons, hx, Option.map_some, ih]

theorem filterMap_numbered (start : Nat) (code : List Instruction) :
    ((numbered start 0 code).map (·.2)).filterMap (fun i =>
    (Program.ofInstructions start code).lines[i]?.map (·.insn.opcode)) =
      code.map Instruction.opcode := by
  rw [filterMap_lines fun x hx => hx, map_insn_numbered]

theorem numbers_pairwise (start : Nat) (code : List Instruction) :
    ((numbered start 0 code).map (·.2)).Pairwise (· ≤ ·) :=
  List.pairwise_map.mpr ((numbered_pairwise start 0 code).imp fun h => Nat.le_of_lt h.2)

/-- Visits that go upwards keep the order of the code. -/
theorem visitedOpcodes_sublist
    (h : (visitOrder (.ofInstructions start code)).Subperm ((numbered start 0 code).map (·.2)))
    (hp : (visitOrder (.ofInstructions start code)).Pairwise (· < ·)) :
    (visitedOpcodes (.ofInstructions start code)).Sublist (code.map Instruction.opcode) := by
  have hsub := List.sublist_of_subperm_of_pairwise h (hp.imp Nat.le_of_lt)
    (numbers_pairwise start code)
  rw [← filterMap_numbered start code]
  exact hsub.filterMap _

end

theorem subperm_map {α β : Type} (f : α → β) {xs ys : List α} (h : xs.Subperm ys) :
    (xs.map f).Subperm (ys.map f) := by
  obtain ⟨zs, hperm, hsub⟩ := h
  exact ⟨zs.map f, hperm.map f, hsub.map f⟩

/-- The opcodes of a recovered script are those of the lines that the walk takes. -/
theorem exists_lines_of_recovered {start : Nat} {stmts : List Stmt}
    {code more : List Instruction} {d : Structured} (h : build start stmts = .ok code)
    (hi : Busy stmts) (hd : Structured.ofInstructions start code = .ok d)
    (hm : build start d.stmts = .ok more) :
    ∃ lines : List Numbered, lines.Subperm (numbered start 0 code) ∧
      visitOrder (.ofInstructions start code) = lines.map (·.2) ∧
      more.map Instruction.opcode = (lines.map (·.1.insn)).map Instruction.opcode := by
  obtain ⟨_, _, _, o, _, _, -, -, ho, rfl, hdiv⟩ := exists_outlined_of_build h
  obtain ⟨taken, htakes, hw⟩ := hdiv.exists_walk
  have hf : ∀ s ∈ taken.stretches, s.finish.Faithful s.code := fun s hs =>
    ho.faithful hi s (htakes.progress.subset s hs)
  have hv := visitOrder_eq (by rw [Program.length_lines]; exact hw) rfl
  refine ⟨taken.lines, hdiv.subperm_lines htakes.progress, hv, ?_⟩
  have hd' := Structured.ofInstructions_eq_ok
    (Program.build_eq_ok_of_wellNested (ho.laid.wellNested hdiv)) hw
  cases hd.symm.trans hd'
  obtain ⟨items, n, labels, hlow, -, hlink⟩ := build_eq_ok.mp hm
  obtain rfl := hlow.items_eq (lowers_append.mpr ⟨_, _, _,
    Outline.lowers_stmts htakes.shaped hf 0, lowers_labelsOf _ _ _, rfl⟩)
  -- the label that may close the script has no opcode
  have hclose := opcodes_labelItems (.ofInstructions start o.code) (start + codeWidth o.code)
  rw [map_opcode hlink, List.filterMap_append, Outline.opcodes_items htakes.shaped hf, hclose,
    List.append_nil]
  rfl

/-- **Order of recovered code.**  Building a recovered script gives the opcodes of the lines that
the walk visits, in the order of the visits, and no opcode more often than the code has it.  So the
order of the code is kept if and only if the visits keep it, as they do when they go upwards. -/
theorem opcodes_sublist_iff {start : Nat} {stmts : List Stmt} {code more : List Instruction}
    {d : Structured} (h : build start stmts = .ok code) (hi : Busy stmts)
    (hd : Structured.ofInstructions start code = .ok d) (hm : build start d.stmts = .ok more) :
    more.map Instruction.opcode = visitedOpcodes (.ofInstructions start code) ∧
    (more.map Instruction.opcode).Subperm (code.map Instruction.opcode) ∧
    ((more.map Instruction.opcode).Sublist (code.map Instruction.opcode) ↔
      (visitedOpcodes (.ofInstructions start code)).Sublist (code.map Instruction.opcode)) ∧
    ((visitOrder (.ofInstructions start code)).Pairwise (· < ·) →
      (more.map Instruction.opcode).Sublist (code.map Instruction.opcode)) := by
  obtain ⟨lines, hsub, hv, hops⟩ := exists_lines_of_recovered h hi hd hm
  have hvisited : more.map Instruction.opcode = visitedOpcodes (.ofInstructions start code) := by
    rw [hops, visitedOpcodes, hv, filterMap_lines fun x hx => hsub.subset hx]
  refine ⟨hvisited, ?_, by rw [hvisited], fun hp => ?_⟩
  · have := subperm_map Instruction.opcode (subperm_map (·.1.insn) hsub)
    rwa [map_insn_numbered, ← hops] at this
  · rw [hvisited]
    refine visitedOpcodes_sublist ?_ hp
    rw [hv]
    exact subperm_map _ hsub

/-- The last jump goes back to what the second one leads over. -/
def riding : List Stmt :=
  [.ifThen (.num 1) [.goto "stop"],
   .goto "ride",
   .label "stop",
   .call "Entity" "stop" [],
   .label "ride",
   .call "Entity" "enter_vehicle" [],
   .goto "stop"]

theorem opcodes_sublist_iff_riding : ∃ code d more, build 0 riding = .ok code ∧
    Structured.ofInstructions 0 code = .ok d ∧ build 0 d.stmts = .ok more ∧
    ¬ (more.map Instruction.opcode).Sublist (code.map Instruction.opcode) := by
  have hbusy : Busy riding := by
    intro e he
    have : e = .call (.path "Entity" "stop") [] ∨
        e = .call (.path "Entity" "enter_vehicle") [] := by
      simpa [riding, within, withinStmt, Stmt.call] using he
    rcases this with rfl | rfl <;> decide
  let code := (build 0 riding).toOption.getD []
  have hcode : build 0 riding = .ok code := by decide +kernel
  have hnot : ¬ (visitedOpcodes (.ofInstructions 0 code)).Sublist
      (code.map Instruction.opcode) := by
    decide +kernel
  have hok : ((Structured.ofInstructions 0 code).toOption.any fun d =>
      (build 0 d.stmts).isOk) = true := by decide +kernel
  cases hd : Structured.ofInstructions 0 code with
  | error e =>
    rw [hd] at hok
    cases hok
  | ok d =>
    rw [hd] at hok
    cases hm : build 0 d.stmts with
    | error e =>
      have hbuilt : (build 0 d.stmts).isOk = true := hok
      rw [hm] at hbuilt
      cases hbuilt
    | ok more =>
      obtain ⟨-, -, hiff, -⟩ := opcodes_sublist_iff hcode hbusy hd hm
      exact ⟨code, d, more, hcode, hd, hm, fun hs => hnot (hiff.mp hs)⟩

end MapScript
