import MapScript.Proofs.RoundTrip

/-!
# Straight code

Code without jumps is recovered phrase by phrase, and building the statements gives their code one
behind the other.  `Straight code out` says that `code` consists of phrases and that `out` is the
code of what they complete; the two differ where recovery takes more than one phrase for the same
statement.  Then `out` is what code comes back as, wherever it stands (`Straight.recovered`).
-/

namespace MapScript

open Structured Recovery Lowering Linking CodeItem

/-- The code is a phrase, and `out` is the code of the statements that it completes. -/
def Phrased (code out : List Instruction) : Prop :=
  ∃ init last ss, code = init ++ [last] ∧ Phrase init last (.stmts ss) ∧
    ∀ n, Lowers n ss (out.map .ofInstruction) n

theorem CodeItem.ofInstruction_injective {i j : Instruction}
    (h : ofInstruction i = ofInstruction j) : i = j := by
  obtain ⟨hop, hoperands⟩ := CodeItem.insn.inj h
  have hinj : Function.Injective Operand.value := fun _ _ he => Operand.value.inj he
  obtain ⟨op, operands⟩ := i
  cases hop
  cases List.map_injective_iff.mpr hinj hoperands
  rfl

/-- A faithful phrase has its own code. -/
theorem Phrased.of_isPhrase {code : List Instruction}
    (h : IsPhrase (code.map .ofInstruction) false) : Phrased code code := by
  obtain ⟨init, last, ss, hp, he, hf⟩ := h
  have hcode : code = init ++ [last] :=
    List.map_injective_iff.mpr (fun _ _ => CodeItem.ofInstruction_injective) he
  rw [hcode]
  exact ⟨init, last, ss, rfl, hp, hf rfl⟩

/-- Phrases one behind the other, and the code of the statements that they complete. -/
inductive Straight : List Instruction → List Instruction → Prop
  | nil : Straight [] []
  | cons {phrase out code more : List Instruction} (first : Phrased phrase out)
      (rest : Straight code more) : Straight (phrase ++ code) (out ++ more)

namespace Straight

variable {code out : List Instruction}

/-- Straight code is laid out as an outline without jumps. -/
theorem exists_outline (h : Straight code out) (base index : Nat) : ∃ o stop next,
    Outline.Laid base index o stop next ∧ o.code = code ∧
      (∀ s ∈ o.stretches, s.finish.target? = none) ∧ o.outerGotos = [] ∧
      ∀ p : Program, (∀ t, p.labelsOf t = []) →
        ∀ n, Lowers n (o.stmts p) (out.map .ofInstruction) n := by
  induction h generalizing base index with
  | nil =>
    exact ⟨.nil, base, index, .nil, rfl, by simp [Outline.stretches], rfl,
      fun p _ n => lowers_nil.mpr ⟨rfl, rfl⟩⟩
  | cons first rest ih =>
    obtain ⟨init, last, ss, rfl, phrase, lowers⟩ := first
    obtain ⟨o, stop, next, hlaid, rfl, hnone, hgotos, hlow⟩ :=
      ih (base + codeWidth (init ++ [last])) (index + (init ++ [last]).length)
    refine ⟨.cons (Stretch.place base index phrase) .nil o, stop, next, ?_, ?_, ?_, hgotos, ?_⟩
    · exact (Outline.Laid.place phrase .nil rfl).append hlaid
    · rw [Outline.code_cons, Stretch.code_place, Outline.code_nil, List.nil_append]
    · refine Outline.forall_stretches_cons.mpr ⟨rfl, by simp [Outline.stretches], hnone⟩
    · intro p hp n
      have hemitted : (Stretch.place base index phrase).emitted p [] = grouped ss := by
        simp [Stretch.emitted, Stretch.place, Finish.emitted, hp]
      rw [Outline.stmts, Outline.stmts, hemitted, List.map_append]
      exact lowers_append.mpr ⟨_, _, _, lowers_grouped.mpr (lowers n), hlow p hp n, rfl⟩

/-- **Straight code is recovered**, and what is recovered has the code of its phrases. -/
theorem recovered (h : Straight code out) (start : Nat) :
    ∃ d, Structured.ofInstructions start code = .ok d ∧ d.residual = [] ∧
      Script.build start d.stmts = .ok out := by
  obtain ⟨o, stop, next, hlaid, rfl, hnone, hgotos, hlow⟩ := h.exists_outline start 0
  have hd : Divides o.stretches start o.code := by
    refine ⟨hlaid.lines_eq.symm, fun s hs t ht => ?_⟩
    rw [hnone s hs] at ht
    cases ht
  have hlabels : ∀ t, (Program.ofInstructions start o.code).labelsOf t = [] := by
    intro t
    rw [Program.labelsOf, if_neg]
    rw [Program.isLabelled_iff]
    rintro ⟨x, hx, -, ht⟩
    obtain ⟨s, hs, hx⟩ := hd.mem_lines.mp hx
    cases (hnone s hs).symm.trans (s.target?_of_mem hx ht).2
  have hwalk := hlaid.walk_start hd (by simp [hgotos])
  have hbuild := Program.build_eq_ok_of_wellNested (hlaid.wellNested hd)
  refine ⟨_, Structured.ofInstructions_eq_ok hbuild hwalk, rfl, ?_⟩
  rw [hlabels, List.append_nil]
  refine Script.build_eq_ok.mpr ⟨_, _, [], hlow _ hlabels 0, ?_, linkAll_ofInstruction _ _⟩
  rw [labelTable_eq_ok, labelsAt_ofInstruction]
  exact ⟨rfl, List.nodup_nil⟩

end Straight

end MapScript
