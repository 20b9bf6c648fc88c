import MapScript.Proofs.Labels
import MapScript.Proofs.Turns
import MapScript.Proofs.Underflow

/-!
# Each line is taken once

A walk gives each line that it visits at most one statement besides its label (`Walked.steps_le`),
and the labels stand in the order of the visits (`Walked.labels_eq`).  As no line is visited twice,
the labels of a recovered script are distinct and it has at most as many statements as there are
lines (`ofProgram_ends`), wherever jumps go.
-/

namespace MapScript

open Structured Script Recovery

/-! ## Labels and steps of statements -/

/-- Whether a statement does something of its own. -/
def Stmt.isStep : Stmt → Bool
  | label _ | block _ => false
  | _ => true

namespace Script

/-- How many statements there are at all depths, besides labels and blocks. -/
def steps (stmts : List Stmt) : Nat := (within stmts).countP Stmt.isStep

theorem labels_append (xs ys : List Stmt) : labels (xs ++ ys) = labels xs ++ labels ys := by
  rw [labels, within_append, List.filterMap_append]
  rfl

theorem steps_append (xs ys : List Stmt) : steps (xs ++ ys) = steps xs + steps ys := by
  rw [steps, within_append, List.countP_append]
  rfl

/-- A group is a block around its statements, or nothing but them. -/
theorem within_grouped (ss : List Stmt) :
    within (grouped ss) = within ss ∨ within (grouped ss) = .block ss :: within ss := by
  unfold grouped
  split
  · exact .inl rfl
  · exact .inl rfl
  · exact .inr (within_block _)

theorem labels_grouped (ss : List Stmt) : labels (grouped ss) = labels ss := by
  unfold labels
  rcases within_grouped ss with h | h <;> rw [h]
  rfl

theorem steps_grouped (ss : List Stmt) : steps (grouped ss) = steps ss := by
  unfold steps
  rcases within_grouped ss with h | h <;> rw [h]
  rfl

theorem steps_ifThen (c : Expr) (body : List Stmt) :
    steps [.ifThen c body] = steps body + 1 := by
  rw [steps, within_ifThen, List.countP_cons]
  rfl

theorem labels_of_isPlain {ss : List Stmt} (h : ∀ s ∈ ss, s.isPlain = true) : labels ss = [] := by
  rw [labels, within_of_isPlain h, List.filterMap_eq_nil_iff]
  intro s hs
  have := h s hs
  cases s <;> first | rfl | cases this

theorem steps_le_of_isPlain {ss : List Stmt} (h : ∀ s ∈ ss, s.isPlain = true) :
    steps ss ≤ ss.length := by
  rw [steps, within_of_isPlain h]
  exact List.countP_le_length

end Script

theorem steps_labelsOf (p : Program) (t : Nat) : steps (p.labelsOf t) = 0 := by
  unfold Program.labelsOf
  split <;> rfl

/-- The labels that lines at the given offsets have. -/
theorem flatMap_labelsOf (p : Program) (ts : List Nat) :
    (ts.flatMap fun t => labels (p.labelsOf t)) = (ts.filter p.isLabelled).map labelAt := by
  induction ts with
  | nil => rfl
  | cons t ts ih =>
    rw [List.flatMap_cons, ih, List.filter_cons, Program.labelsOf]
    split <;> rfl

/-- An instruction completes at most one statement. -/
theorem Recovery.length_le_of_recovers {i : Instruction} {s s' : ValueStack} {ss : List Stmt}
    (h : Recovers i s ss s') : ss.length ≤ 1 := by
  cases h <;> simp

/-! ## Labels and steps of walks -/

namespace Walked

variable {p : Program} {st st' : State} {lines : List Numbered} {ss : List Stmt}

/-- The labels are those of the visited lines, in order. -/
theorem labels_eq (h : Walked p st lines ss st') :
    labels ss = lines.flatMap fun x => labels (p.labelsOf x.1.offset) := by
  induction h with
  | nil => rfl
  | append first second ih1 ih2 => rw [labels_append, ih1, ih2, List.flatMap_append]
  | goto => rw [labels_grouped, labels_append, List.flatMap_singleton]; exact List.append_nil _
  | branch mem fresh jump top inner ih =>
    rw [labels_grouped, labels_append, labels_ifThen, ih, List.flatMap_cons]
  | plain mem fresh jump run =>
    rw [labels_grouped, labels_append, labels_of_isPlain (isPlain_of_recovers run),
      List.flatMap_singleton, List.append_nil]

/-- No line has more than one step. -/
theorem steps_le (h : Walked p st lines ss st') : steps ss ≤ lines.length := by
  induction h with
  | nil => exact Nat.le_refl 0
  | append first second ih1 ih2 =>
    rw [steps_append, List.length_append]
    omega
  | goto =>
    rw [steps_grouped, steps_append, steps_labelsOf, Nat.zero_add]
    exact Nat.le_refl 1
  | branch mem fresh jump top inner ih =>
    rw [steps_grouped, steps_append, steps_labelsOf, steps_ifThen, List.length_cons]
    omega
  | plain mem fresh jump run =>
    have hsteps := steps_le_of_isPlain (isPlain_of_recovers run)
    have hlen := length_le_of_recovers run
    rw [steps_grouped, steps_append, steps_labelsOf, List.length_singleton]
    omega

/-- A walk from the start visits no line twice. -/
theorem nodup (h : Walked p ⟨[], []⟩ lines ss st') : (lines.map (·.2)).Nodup := by
  have hvisited := h.traced.nodup List.nodup_nil
  rw [h.traced.visited, List.append_nil, visitsOf, List.nodup_reverse] at hvisited
  exact hvisited

theorem length_le (h : Walked p ⟨[], []⟩ lines ss st') : lines.length ≤ p.lines.length := by
  have hsub := (List.Nodup.of_map _ h.nodup).subperm h.traced.subset
  calc lines.length ≤ p.lines.zipIdx.length := hsub.length_le
    _ = p.lines.length := List.length_zipIdx

/-- Lines with ascending offsets are told apart by them. -/
theorem nodup_offsets (h : Walked p ⟨[], []⟩ lines ss st')
    (ha : p.lines.Pairwise (·.offset < ·.offset)) : (lines.map (·.1.offset)).Nodup := by
  refine List.Nodup.map_on (fun x hx y hy he => ?_) (List.Nodup.of_map _ h.nodup)
  obtain ⟨hi, hx⟩ := List.getElem?_eq_some_iff.mp
    (List.mem_zipIdx_iff_getElem?.mp (h.traced.subset x hx))
  obtain ⟨hj, hy⟩ := List.getElem?_eq_some_iff.mp
    (List.mem_zipIdx_iff_getElem?.mp (h.traced.subset y hy))
  have hlt := List.pairwise_iff_getElem.mp ha
  have hnumber : x.2 = y.2 := by
    rcases Nat.lt_trichotomy x.2 y.2 with hxy | hxy | hxy
    · have := hlt x.2 y.2 hi hj hxy
      rw [hx, hy] at this
      omega
    · exact hxy
    · have := hlt y.2 x.2 hj hi hxy
      rw [hx, hy] at this
      omega
  refine Prod.ext ?_ hnumber
  rw [← hx, ← hy]
  congr 1

/-- The labels of a walk and the label at the end are distinct. -/
theorem nodup_labels (h : Walked p ⟨[], []⟩ lines ss st')
    (ha : p.lines.Pairwise (·.offset < ·.offset)) (hs : ∀ l ∈ p.lines, l.offset < p.stop) :
    (labels (ss ++ p.labelsOf p.stop)).Nodup := by
  have hall : labels (ss ++ p.labelsOf p.stop) =
      (lines.map (·.1.offset) ++ [p.stop]).flatMap fun t => labels (p.labelsOf t) := by
    rw [labels_append, h.labels_eq, List.flatMap_append, List.flatMap_map, List.flatMap_singleton]
  have hoffsets : (lines.map (·.1.offset) ++ [p.stop]).Nodup := by
    refine List.nodup_append.mpr ⟨h.nodup_offsets ha, List.nodup_singleton _, ?_⟩
    intro t ht t' ht' he
    obtain ⟨x, hx, rfl⟩ := List.mem_map.mp ht
    have := hs x.1 (List.fst_mem_of_mem_zipIdx (h.traced.subset x hx))
    rw [List.mem_singleton.mp ht'] at he
    omega
  rw [hall, flatMap_labelsOf]
  exact (hoffsets.filter _).map fun _ _ => labelAt_injective

end Walked

/-! ## Recovered scripts -/

namespace Structured

/-- The statements that a walk gives, with the label at the end, and the values left over. -/
def closed (p : Program) (x : List Stmt × State) : Structured :=
  ⟨x.1 ++ p.labelsOf p.stop, x.2.stack.reverse⟩

theorem ofProgram_eq (p : Program) :
    ofProgram p = (walk p p.lines.length 0 ⟨[], []⟩).map (closed p) := by
  unfold ofProgram
  cases walk p p.lines.length 0 ⟨[], []⟩ <;> rfl

theorem exists_walked_of_ofProgram {p : Program} {d : Structured} (h : ofProgram p = .ok d) :
    ∃ lines ss st, Walked p ⟨[], []⟩ lines ss st ∧ d.stmts = ss ++ p.labelsOf p.stop := by
  rw [ofProgram_eq] at h
  cases hw : walk p p.lines.length 0 ⟨[], []⟩ with
  | error e =>
    rw [hw] at h
    cases h
  | ok x =>
    rw [hw] at h
    cases h
    obtain ⟨lines, hlines⟩ := walked_of_walk hw
    exact ⟨lines, x.1, x.2, hlines, rfl⟩

theorem nodup_visitOrder (p : Program) : (visitOrder p).Nodup := by
  cases hw : walk p p.lines.length 0 ⟨[], []⟩ with
  | error e => simp [visitOrder, hw]
  | ok x =>
    obtain ⟨lines, hlines⟩ := walked_of_walk hw
    rw [visitOrder_eq hw (by simpa using hlines.traced.visited)]
    exact hlines.nodup

/-- **Each line is taken once, and the walk ends.**  Turns of the walk at the top come to an end,
and what they come to is the result.  No line is visited twice, the labels of the script are
distinct, and besides labels and blocks it has at most one statement for each line.  In code that
was accepted, only an underflow stops the walk. -/
theorem ofProgram_ends (p : Program) :
    (p.lines.Pairwise (·.offset < ·.offset) → (∀ l ∈ p.lines, l.offset < p.stop) →
      (WellFounded fun c' c => ∃ ss, turn p c = .on ss c') ∧
      (∃ r, (∀ r', Run p .start r' ↔ r' = r) ∧ ofProgram p = r.map (closed p)) ∧
      (visitOrder p).Nodup ∧
      ∀ d, ofProgram p = .ok d → (labels d.stmts).Nodup ∧ steps d.stmts ≤ p.lines.length) ∧
    ∀ start code, Program.build start code = .ok p → (∀ i ∈ code, i.wellFormed = true) →
      ∀ e, ofProgram p = .error e →
        ∃ line mnemonic needed found, e = .stackUnderflow line mnemonic needed found := by
  refine ⟨fun ha hs => ⟨turn_wf p, ⟨_, fun r' => ?_, ofProgram_eq p⟩, nodup_visitOrder p, ?_⟩, ?_⟩
  · rw [run_iff, eq_comm]
  · intro d hd
    obtain ⟨lines, ss, st, hw, hstmts⟩ := exists_walked_of_ofProgram hd
    rw [hstmts]
    refine ⟨hw.nodup_labels ha hs, ?_⟩
    rw [steps_append, steps_labelsOf]
    exact hw.steps_le.trans hw.length_le
  · intro start code hb hwf e he
    rw [ofProgram_eq] at he
    cases hw : walk p p.lines.length 0 ⟨[], []⟩ with
    | ok x =>
      rw [hw] at he
      cases he
    | error e' =>
      rw [hw] at he
      cases he
      exact isUnderflow_of_walk (Program.landing_of_build hb hwf) hw

/-- Two jumps that lead to one another, around a condition. -/
def circling : List Instruction :=
  (Bytecode.decode [0x200, 4, 0x200, 0, 0x110, 1, 0x201, 9, 0x203, 0x200, 2]).toOption.getD []

/-- Its stack is empty at the condition. -/
def starved : List Instruction :=
  (Bytecode.decode [0x200, 2, 0x201, 5, 0x203]).toOption.getD []

theorem ofProgram_ends_circling :
    (∃ d, ofProgram (.ofInstructions 0 circling) = .ok d ∧ (labels d.stmts).Nodup ∧
      steps d.stmts ≤ (Program.ofInstructions 0 circling).lines.length) ∧
    ∃ e, ofProgram (.ofInstructions 0 starved) = .error e ∧
      ∃ line mnemonic needed found, e = .stackUnderflow line mnemonic needed found := by
  have hok : (ofProgram (.ofInstructions 0 circling)).isOk = true := by decide +kernel
  have hfail : (ofProgram (.ofInstructions 0 starved)).isOk = false := by decide +kernel
  constructor
  · cases hd : ofProgram (.ofInstructions 0 circling) with
    | error e =>
      rw [hd] at hok
      cases hok
    | ok d =>
      obtain ⟨-, -, -, hall⟩ := (ofProgram_ends (.ofInstructions 0 circling)).1
        (by decide +kernel) (by decide +kernel)
      exact ⟨d, rfl, hall d hd⟩
  · cases hd : ofProgram (.ofInstructions 0 starved) with
    | ok d =>
      rw [hd] at hfail
      cases hfail
    | error e =>
      exact ⟨e, rfl, (ofProgram_ends (.ofInstructions 0 starved)).2 0 starved (by decide +kernel)
        (by decide +kernel) e hd⟩

end Structured

end MapScript
