import Mathlib.Data.List.Perm.Subperm
import MapScript.Proofs.Trace

/-!
# Scripts and their jumps

A recovered script may jump to a label that it does not have: the walk does not follow jumps in the
bodies of conditions, so the line that such a jump goes to may be left out.  Which scripts are
closed under their jumps is said by the order of visits alone (`Program.FollowsJumps`); jumps
outside of bodies are always followed (`lands_of_outer_goto`).
-/

namespace MapScript

open Structured Script

/-! ## Statements outside of bodies -/

namespace Script

mutual

theorem outerStmt_subset : (s : Stmt) → ∀ x ∈ outerStmt s, x ∈ withinStmt s
  | .block body => fun x hx => List.mem_cons_of_mem _ (outer_subset body x hx)
  | .ifThen _ _ => fun x hx => by
    obtain rfl := List.mem_singleton.mp hx
    exact List.mem_cons_self
  | .expr _ | .goto _ | .label _ | .assign _ _ | .ret => fun _ hx => hx

theorem outer_subset : (ss : List Stmt) → ∀ x ∈ outer ss, x ∈ within ss
  | [] => fun _ hx => hx
  | s :: rest => fun x hx => by
    rw [outer, List.mem_append] at hx
    rw [within, List.mem_append]
    rcases hx with hx | hx
    · exact .inl (outerStmt_subset s x hx)
    · exact .inr (outer_subset rest x hx)

end

theorem outer_grouped (ss : List Stmt) : outer (grouped ss) = outer ss := by
  unfold grouped
  split
  · rfl
  · rfl
  · simp [outer, outerStmt]

end Script

theorem outer_labelsOf (p : Program) (t : Nat) : outer (p.labelsOf t) = p.labelsOf t := by
  unfold Program.labelsOf
  split <;> rfl

/-- A visit starts with the label of its line, if it has one. -/
theorem outer_of_visit {p : Program} {walk : BodyWalk} {x : Numbered} {st st' : State}
    {ss : List Stmt} {r : Resume} (h : visit p walk x.1 x.2 st = .ok (ss, r, st')) :
    ∃ core, outer ss = p.labelsOf x.1.offset ++ outer core := by
  rcases visit_cases h with ⟨t, -, -, rfl, -⟩ | ⟨c, t, body, stack, -, -, -, -, rfl⟩ |
    ⟨core, stack, -, -, -, rfl, -⟩
  all_goals
    rw [outer_grouped, outer_append, outer_labelsOf]
    exact ⟨_, rfl⟩

/-- A jump outside of bodies is the one that the walk follows, and the last statement of its
visit. -/
theorem resume_of_outer_goto {p : Program} {walk : BodyWalk} {x : Numbered} {st st' : State}
    {ss : List Stmt} {r : Resume} (h : visit p walk x.1 x.2 st = .ok (ss, r, st'))
    {before after : List Stmt} {name : String} (hn : outer ss = before ++ .goto name :: after) :
    ∃ t, name = labelAt t ∧ x.1.goto? = some t ∧ resumeAt p x.2 t = .ok r ∧
      before = p.labelsOf x.1.offset ∧ after = [] ∧ st'.visited = x.2 :: st.visited := by
  have hlabels : .goto name ∉ p.labelsOf x.1.offset := fun hm =>
    goto_not_mem_labelsOf (outer_subset _ _ (by rwa [outer_labelsOf]))
  have hmem : .goto name ∈ outer ss := by simp [hn]
  rcases visit_cases h with ⟨t, hg, hr, rfl, rfl⟩ | ⟨c, t, body, stack, -, -, -, -, rfl⟩ |
    ⟨core, stack, -, hrun, -, rfl, -⟩
  · rw [outer_grouped, outer_append, outer_labelsOf] at hn
    have hlast : outer [Stmt.goto (labelAt t)] = [.goto (labelAt t)] := rfl
    rw [hlast] at hn
    -- the labels hold no jump, so the split is in front of the last statement
    rcases List.append_eq_append_iff.mp hn with ⟨mid, rfl, he⟩ | ⟨mid, he, hsplit⟩
    · cases mid with
      | nil =>
        cases he
        exact ⟨t, rfl, hg, hr, by simp, rfl, rfl⟩
      | cons m mid => simp at he
    · cases mid with
      | nil =>
        cases hsplit
        exact ⟨t, rfl, hg, hr, by simpa using he.symm, rfl, rfl⟩
      | cons m mid =>
        cases hsplit
        exact absurd (by simp [he]) hlabels
  · rw [outer_grouped, outer_append, outer_labelsOf, List.mem_append] at hmem
    have := hmem.resolve_left hlabels
    simp [outer, outerStmt] at this
  · rw [outer_grouped, outer_append, outer_labelsOf, List.mem_append] at hmem
    have hplain := Recovery.isPlain_of_recovers (Recovery.recovers_of_run hrun)
    have := outer_subset _ _ (hmem.resolve_left hlabels)
    rw [within_of_isPlain hplain] at this
    cases hplain _ this

/-! ## Visits that are left -/

/-- There are visits left for all lines that have not been visited. -/
structure Budget (p : Program) (visits : Nat) (st : State) : Prop where
  nodup : st.visited.Nodup
  bound : ∀ i ∈ st.visited, i < p.lines.length
  enough : p.lines.length ≤ visits + st.visited.length

namespace Budget

variable {p : Program} {visits : Nat} {st st' : State}

theorem step (h : Budget p (visits + 1) st) {x : Numbered} {lines : List Numbered}
    {ss : List Stmt} (ht : Traced p st (x :: lines) ss st') : Budget p visits st' where
  nodup := ht.nodup h.nodup
  bound i hi := by
    rw [ht.visited, List.mem_append] at hi
    rcases hi with hi | hi
    · obtain ⟨y, hy, rfl⟩ := mem_visitsOf.mp hi
      have := List.mem_zipIdx_iff_getElem?.mp (ht.subset y hy)
      exact (List.getElem?_eq_some_iff.mp this).1
    · exact h.bound i hi
  enough := by
    have hlen : (visitsOf (x :: lines)).length = lines.length + 1 := by simp [visitsOf]
    have := h.enough
    rw [ht.visited, List.length_append, hlen]
    omega

/-- A line that has not been visited leaves a visit to make. -/
theorem pos (h : Budget p visits st) {i : Nat} (hi : i < p.lines.length)
    (hv : i ∉ st.visited) : 0 < visits := by
  have hn : (i :: st.visited).Nodup := List.nodup_cons.mpr ⟨hv, h.nodup⟩
  have hsub : ∀ j ∈ i :: st.visited, j ∈ List.range p.lines.length := by
    intro j hj
    rw [List.mem_range]
    rcases List.mem_cons.mp hj with rfl | hj
    · exact hi
    · exact h.bound j hj
  have hlen := (hn.subperm hsub).length_le
  rw [List.length_cons, List.length_range] at hlen
  have := h.enough
  omega

end Budget

theorem Continues.subset {p : Program} {visits : Nat} {next : Option Nat} {st st' : State}
    {more : List Stmt} (h : Continues p visits next st more st') :
    ∀ i ∈ st.visited, i ∈ st'.visited := by
  intro i hi
  cases next with
  | none =>
    obtain ⟨-, rfl⟩ := h
    exact hi
  | some j =>
    obtain ⟨lines, ht⟩ := traced_of_walk h
    rw [ht.visited]
    exact List.mem_append_right _ hi

section

variable {start : Nat} {code : List Instruction}

/-- The walk goes on with the line at its index, unless that has been visited. -/
theorem visit_of_walk {visits : Nat} {st st' : State} {ss : List Stmt} {x : Numbered}
    (hb : Budget (.ofInstructions start code) visits st) (hx : x ∈ numbered start 0 code)
    (hv : x.2 ∉ st.visited)
    (h : walk (.ofInstructions start code) visits x.2 st = .ok (ss, st')) :
    ∃ left rest lines ss1 r st1 more, visits = left + 1 ∧
      visit (.ofInstructions start code) (walkBody (.ofInstructions start code) rest) x.1 x.2 st =
        .ok (ss1, r, st1) ∧
      Traced (.ofInstructions start code) st (x :: lines) ss1 st1 ∧
      Continues (.ofInstructions start code) left (r.index? x.2) st1 more st' ∧
      ss = ss1 ++ more := by
  have hlen : x.2 < (Program.ofInstructions start code).lines.length := by
    rw [Program.length_lines]
    have := (mem_numbered hx).2.2.2
    omega
  obtain ⟨left, rfl⟩ : ∃ v, visits = v + 1 := ⟨visits - 1, by have := hb.pos hlen hv; omega⟩
  obtain ⟨before, rest, hz⟩ := List.append_of_mem hx
  have hp := numbered_pairwise start 0 code
  rw [hz, List.pairwise_append] at hp
  have hnext : nextUnvisited st.visited x.2 (Program.ofInstructions start code).lines.zipIdx =
      some (x.1, x.2, rest) := by
    rw [Program.zipIdx_lines, hz]
    exact nextUnvisited_eq_some (fun y hy => .inl (hp.2.2 y hy x List.mem_cons_self).2)
      (Nat.le_refl _) hv
  rcases walk_cases h with ⟨hn, -, -⟩ | ⟨y, rest', lines, ss1, r, st1, more, hn, hvis, hw, hc, rfl⟩
  · rw [hnext] at hn
    cases hn
  · rw [hnext] at hn
    simp only [Option.some.injEq, Prod.mk.injEq] at hn
    obtain rfl : x = y := Prod.ext hn.1 hn.2.1
    exact ⟨left, rest', lines, ss1, r, st1, more, rfl, hvis, hw.traced, hc, rfl⟩

/-- The walk visits the line that it goes on from. -/
theorem mem_visited_of_walk {visits : Nat} {st st' : State} {ss : List Stmt} {x : Numbered}
    (hb : Budget (.ofInstructions start code) visits st) (hx : x ∈ numbered start 0 code)
    (h : walk (.ofInstructions start code) visits x.2 st = .ok (ss, st')) :
    x.2 ∈ st'.visited := by
  by_cases hv : x.2 ∈ st.visited
  · obtain ⟨lines, ht⟩ := traced_of_walk h
    rw [ht.visited]
    exact List.mem_append_right _ hv
  · obtain ⟨left, rest, lines, ss1, r, st1, more, -, -, ht, hc, -⟩ := visit_of_walk hb hx hv h
    refine hc.subset _ ?_
    rw [ht.visited, visitsOf_cons]
    simp

/-- Jumps outside of bodies go to lines that the walk visits, or to the end. -/
theorem visited_of_outer_goto {visits index : Nat} {st st' : State} {ss : List Stmt}
    (hb : Budget (.ofInstructions start code) visits st)
    (h : walk (.ofInstructions start code) visits index st = .ok (ss, st')) {name : String}
    (hn : .goto name ∈ outer ss) : ∃ t, name = labelAt t ∧ (t = start + codeWidth code ∨
      ∃ x ∈ numbered start 0 code, x.1.offset = t ∧ x.2 ∈ st'.visited) := by
  induction visits generalizing index st ss with
  | zero =>
    cases h
    cases hn
  | succ visits ih =>
    rcases walk_cases h with ⟨-, rfl, -⟩ | ⟨x, rest, lines, ss1, r, st1, more, -, hvis, hw, hc, rfl⟩
    · cases hn
    · have ht := hw.traced
      rw [outer_append, List.mem_append] at hn
      rcases hn with hn | hn
      · obtain ⟨before, after, hsplit⟩ := List.append_of_mem hn
        obtain ⟨t, rfl, -, hr, -⟩ := resume_of_outer_goto hvis hsplit
        refine ⟨t, rfl, ?_⟩
        unfold resumeAt at hr
        rw [Program.stop_ofInstructions] at hr
        split at hr
        · next he => exact .inl he
        · split at hr
          · next j hj =>
            cases hr
            obtain ⟨line, hline, rfl⟩ := Program.indexOf?_iff.mp hj
            exact .inr ⟨(line, j), hline, rfl,
              mem_visited_of_walk (x := (line, j)) (hb.step ht) hline hc⟩
          · cases hr
      · cases hr : r.index? x.2 with
        | none =>
          rw [hr] at hc
          obtain ⟨rfl, -⟩ := hc
          cases hn
        | some j =>
          rw [hr] at hc
          exact ih (hb.step ht) hc hn

end

/-! ## Recovered scripts -/

/-- Every jump that the walk visits goes to a line that it visits, or to the end of the code. -/
def Program.FollowsJumps (p : Program) : Prop :=
  ∀ i ∈ visitOrder p, ∀ l t, p.lines[i]? = some l → l.goto? = some t →
    t = p.stop ∨ ∃ j ∈ visitOrder p, p.indexOf? t = some j

/-- The walk behind recovered statements. -/
theorem exists_traced {start : Nat} {code : List Instruction} {d : Structured}
    (h : Structured.ofInstructions start code = .ok d) : ∃ ss st lines,
      walk (.ofInstructions start code) code.length 0 ⟨[], []⟩ = .ok (ss, st) ∧
      Traced (.ofInstructions start code) ⟨[], []⟩ lines ss st ∧
      visitOrder (.ofInstructions start code) = lines.map (·.2) ∧
      d.stmts = ss ++ (Program.ofInstructions start code).labelsOf (start + codeWidth code) := by
  unfold Structured.ofInstructions at h
  obtain ⟨p, hp, h⟩ := bind_eq_ok.mp h
  obtain ⟨rfl, -⟩ := Program.build_eq_ok.mp hp
  unfold ofProgram at h
  obtain ⟨⟨ss, st⟩, hw, h⟩ := bind_eq_ok.mp h
  cases h
  obtain ⟨lines, ht⟩ := traced_of_walk hw
  have hv := visitOrder_eq hw (by simpa using ht.visited)
  rw [Program.length_lines] at hw
  refine ⟨ss, st, lines, hw, ht, hv, ?_⟩
  rw [← Program.stop_ofInstructions]
  rfl

section

variable {start : Nat} {code : List Instruction} {ss : List Stmt} {st : State}
  {lines : List Numbered}

theorem isLabelled_of_goto {x : Numbered} (hx : x ∈ numbered start 0 code) {t : Nat}
    (ht : x.1.goto? = some t) : (Program.ofInstructions start code).isLabelled t = true := by
  unfold Line.goto? at ht
  split at ht
  · next hk => exact Program.isLabelled_iff.mpr ⟨x, hx, hk, ht⟩
  · cases ht

/-- An offset at which the recovered script has the label: that of a visited line, or the end. -/
def Lands (start : Nat) (code : List Instruction) (lines : List Numbered) (t : Nat) : Prop :=
  t = start + codeWidth code ∨
    ∃ j ∈ lines.map (·.2), (Program.ofInstructions start code).indexOf? t = some j

section

variable (ht : Traced (.ofInstructions start code) ⟨[], []⟩ lines ss st)
include ht

theorem Traced.mem_numbered {x : Numbered} (hx : x ∈ lines) : x ∈ numbered start 0 code := by
  rw [← Program.zipIdx_lines]
  exact ht.subset x hx

theorem Traced.getElem?_lines {x : Numbered} (hx : x ∈ lines) :
    (Program.ofInstructions start code).lines[x.2]? = some x.1 :=
  List.mem_zipIdx_iff_getElem?.mp (ht.subset x hx)

/-- The jumps of a recovered script are those of the visited lines. -/
theorem goto_mem_iff {name : String} :
    .goto name ∈ within
        (ss ++ (Program.ofInstructions start code).labelsOf (start + codeWidth code)) ↔
      ∃ x ∈ lines, ∃ t, x.1.goto? = some t ∧ name = labelAt t := by
  rw [within_append, List.mem_append, ht.gotos]
  exact or_iff_left goto_not_mem_labelsOf

/-- An offset that is jumped to has its label if the walk visits its line, or at the end. -/
theorem label_mem_iff {x : Numbered} (hx : x ∈ lines) {t : Nat} (hg : x.1.goto? = some t) :
    .label (labelAt t) ∈ within
        (ss ++ (Program.ofInstructions start code).labelsOf (start + codeWidth code)) ↔
      Lands start code lines t := by
  have hl := isLabelled_of_goto (ht.mem_numbered hx) hg
  rw [within_append, List.mem_append, ht.labels, label_mem_labelsOf]
  constructor
  · rintro (⟨y, hy, -, he⟩ | ⟨-, he⟩)
    · rw [labelAt_injective he]
      exact .inr ⟨y.2, List.mem_map_of_mem hy, Program.indexOf?_of_mem (ht.mem_numbered hy)⟩
    · exact .inl (labelAt_injective he)
  · rintro (rfl | ⟨j, hj, he⟩)
    · exact .inr ⟨hl, rfl⟩
    · obtain ⟨y, hy, rfl⟩ := List.mem_map.mp hj
      obtain ⟨line, hline, rfl⟩ := Program.indexOf?_iff.mp he
      -- both lines have the same number
      rw [← Program.zipIdx_lines, List.mem_zipIdx_iff_getElem?] at hline
      obtain rfl : line = y.1 := Option.some.inj (hline.symm.trans (ht.getElem?_lines hy))
      exact .inl ⟨y, hy, hl, rfl⟩

/-- The order of visits and the visited lines say the same about jumps. -/
theorem followsJumps_iff (hv : visitOrder (.ofInstructions start code) = lines.map (·.2)) :
    (Program.ofInstructions start code).FollowsJumps ↔
      ∀ x ∈ lines, ∀ t, x.1.goto? = some t → Lands start code lines t := by
  unfold Program.FollowsJumps Lands
  rw [hv, Program.stop_ofInstructions]
  constructor
  · intro hf x hx t hg
    exact hf x.2 (List.mem_map_of_mem hx) x.1 t (ht.getElem?_lines hx) hg
  · intro hf i hi l t hl hg
    obtain ⟨x, hx, rfl⟩ := List.mem_map.mp hi
    obtain rfl : l = x.1 := Option.some.inj (hl.symm.trans (ht.getElem?_lines hx))
    exact hf x hx t hg

/-- A jump outside of bodies has its label. -/
theorem lands_of_outer_goto
    (hw : walk (.ofInstructions start code) code.length 0 ⟨[], []⟩ = .ok (ss, st)) {t : Nat}
    (hn : .goto (labelAt t) ∈ outer
      (ss ++ (Program.ofInstructions start code).labelsOf (start + codeWidth code))) :
    Lands start code lines t := by
  rw [outer_append, List.mem_append] at hn
  have hn' := hn.resolve_right fun hm => goto_not_mem_labelsOf (outer_subset _ _ hm)
  have hb : Budget (.ofInstructions start code) code.length ⟨[], []⟩ :=
    ⟨List.nodup_nil, by simp, by simp [Program.length_lines]⟩
  obtain ⟨t', he, hvis⟩ := visited_of_outer_goto hb hw hn'
  obtain rfl := labelAt_injective he
  rcases hvis with he | ⟨y, hy, rfl, hyv⟩
  · exact .inl he
  · refine .inr ⟨y.2, ?_, Program.indexOf?_of_mem hy⟩
    rw [ht.visited, List.append_nil] at hyv
    simpa [visitsOf] using hyv

end

end

/-- **Closed scripts.**  Jumps outside of bodies always have their label in the recovered script.
All jumps have theirs if and only if every jump that the walk visits goes to a line that it visits,
or to the end of the code. -/
theorem goto_closed_iff {start : Nat} {code : List Instruction} {d : Structured}
    (h : Structured.ofInstructions start code = .ok d) :
    (∀ name, .goto name ∈ outer d.stmts → .label name ∈ within d.stmts) ∧
    ((∀ name, .goto name ∈ within d.stmts → .label name ∈ within d.stmts) ↔
      (Program.ofInstructions start code).FollowsJumps) := by
  obtain ⟨ss, st, lines, hw, ht, hv, hd⟩ := exists_traced h
  rw [hd, followsJumps_iff ht hv]
  refine ⟨?_, ?_, ?_⟩
  · intro name hn
    obtain ⟨x, hx, t, hg, rfl⟩ := (goto_mem_iff ht).mp (outer_subset _ _ hn)
    exact (label_mem_iff ht hx hg).mpr (lands_of_outer_goto ht hw hn)
  · intro hclosed x hx t hg
    exact (label_mem_iff ht hx hg).mp (hclosed _ ((goto_mem_iff ht).mpr ⟨x, hx, t, hg, rfl⟩))
  · intro hf name hn
    obtain ⟨x, hx, t, hg, rfl⟩ := (goto_mem_iff ht).mp hn
    exact (label_mem_iff ht hx hg).mpr (hf x hx t hg)

/-- `if 1 then goto 9 end`, `goto A`, `Entity.stop()` at 9 and `return` at A: the line at 9 is only
reached from the body. -/
def skipping : List Instruction :=
  (Bytecode.decode [0x100, 0x110, 1, 0x201, 7, 0x200, 9, 0x200, 0xA, 0x30D, 0x203]).toOption.getD []

theorem goto_closed_iff_skipping : ∃ d, Structured.ofInstructions 0 skipping = .ok d ∧
    ¬ (Program.ofInstructions 0 skipping).FollowsJumps ∧
    ¬ ∀ name, .goto name ∈ within d.stmts → .label name ∈ within d.stmts := by
  have hnot : ¬ (Program.ofInstructions 0 skipping).FollowsJumps := by
    intro hf
    have hjump : (Program.ofInstructions 0 skipping).lines[3]?.bind Line.goto? = some 9 := by
      decide +kernel
    obtain ⟨l, hl, hg⟩ := Option.bind_eq_some_iff.mp hjump
    have hvisited := hf 3 (by decide +kernel) l 9 hl hg
    revert hvisited
    decide +kernel
  have hok : (Structured.ofInstructions 0 skipping).isOk = true := by decide +kernel
  cases hd : Structured.ofInstructions 0 skipping with
  | error e =>
    rw [hd] at hok
    cases hok
  | ok d => exact ⟨d, rfl, hnot, fun hc => hnot ((goto_closed_iff hd).2.mp hc)⟩

end MapScript
