import MapScript.Proofs.Effect
import MapScript.Proofs.Relinked

/-!
# Which jumps and labels are recovered

`Walked p st lines ss st'` lists what a walk from `st` to `st'` is made of, that visits `lines` and
gives the statements `ss`.  Every walk is one of these, over code of any origin (`walked_of_walk`),
so that what walks keep is proved by induction on `Walked`.  The first such fact is `Traced`: the
labels are those of visited lines that are jumped to, the jumps those of visited jumps.
-/

namespace MapScript

open Structured Recovery Script

/-! ## Statements at all depths -/

namespace Script

/-- A plain statement is all there is in it. -/
theorem within_of_isPlain {ss : List Stmt} (h : ∀ s ∈ ss, s.isPlain = true) : within ss = ss := by
  induction ss with
  | nil => rfl
  | cons s ss ih =>
    have hs : withinStmt s = [s] := by
      have := h s List.mem_cons_self
      cases s <;> first | rfl | cases this
    rw [within, ih fun s' hs' => h s' (List.mem_cons_of_mem _ hs'), hs]
    rfl

theorem goto_mem_within_grouped {name : String} {ss : List Stmt} :
    .goto name ∈ within (grouped ss) ↔ .goto name ∈ within ss := by
  unfold grouped
  split
  · rfl
  · rfl
  · simp [within, withinStmt]

theorem label_mem_within_grouped {name : String} {ss : List Stmt} :
    .label name ∈ within (grouped ss) ↔ .label name ∈ within ss := by
  unfold grouped
  split
  · rfl
  · rfl
  · simp [within, withinStmt]

theorem label_mem_labelsOf {p : Program} {t : Nat} {name : String} :
    .label name ∈ within (p.labelsOf t) ↔ p.isLabelled t = true ∧ name = labelAt t := by
  unfold Program.labelsOf
  split
  · next h => simp [within, withinStmt, h]
  · next h => simp [within, h]

theorem goto_not_mem_labelsOf {p : Program} {t : Nat} {name : String} :
    .goto name ∉ within (p.labelsOf t) := by
  unfold Program.labelsOf
  split
  · simp [within, withinStmt]
  · simp [within]

end Script

/-! ## Walks -/

/-- Where an unconditional jump goes. -/
def Line.goto? (l : Line) : Option Nat :=
  if l.insn.kind = .goto then l.insn.target? else none

/-- A walk from `st` to `st'` visited `lines` and gave the statements `ss`. -/
structure Traced (p : Program) (st : State) (lines : List Numbered) (ss : List Stmt)
    (st' : State) : Prop where
  visited : st'.visited = visitsOf lines ++ st.visited
  nodup : st.visited.Nodup → st'.visited.Nodup
  subset : ∀ x ∈ lines, x ∈ p.lines.zipIdx
  labels : ∀ name, .label name ∈ within ss ↔
    ∃ x ∈ lines, p.isLabelled x.1.offset = true ∧ name = labelAt x.1.offset
  gotos : ∀ name, .goto name ∈ within ss ↔
    ∃ x ∈ lines, ∃ t, x.1.goto? = some t ∧ name = labelAt t

namespace Traced

variable {p : Program} {st st1 st2 : State} {xs ys : List Numbered} {ss ss' : List Stmt}

theorem nil (p : Program) (st : State) : Traced p st [] [] st where
  visited := rfl
  nodup h := h
  subset := by simp
  labels := by simp [within]
  gotos := by simp [within]

theorem append (h : Traced p st xs ss st1) (h' : Traced p st1 ys ss' st2) :
    Traced p st (xs ++ ys) (ss ++ ss') st2 where
  visited := by rw [h'.visited, h.visited, visitsOf_append, List.append_assoc]
  nodup hn := h'.nodup (h.nodup hn)
  subset x hx := by
    rcases List.mem_append.mp hx with hx | hx
    · exact h.subset x hx
    · exact h'.subset x hx
  labels name := by
    rw [within_append, List.mem_append, h.labels, h'.labels]
    simp only [List.mem_append, or_and_right, exists_or]
  gotos name := by
    rw [within_append, List.mem_append, h.gotos, h'.gotos]
    simp only [List.mem_append, or_and_right, exists_or]

/-- A visited line ahead of the lines of its body. -/
theorem line {x : Numbered} (hx : x ∈ p.lines.zipIdx) (hv : x.2 ∉ st.visited) {stack : ValueStack}
    (hb : Traced p ⟨x.2 :: st.visited, stack⟩ ys ss st1) {core : List Stmt}
    (hl : ∀ name, .label name ∈ within core ↔ .label name ∈ within ss)
    (hg : ∀ name, .goto name ∈ within core ↔
      .goto name ∈ within ss ∨ ∃ t, x.1.goto? = some t ∧ name = labelAt t) :
    Traced p st (x :: ys) (grouped (p.labelsOf x.1.offset ++ core)) st1 where
  visited := by
    rw [hb.visited, visitsOf_cons]
    simp
  nodup hn := hb.nodup (List.nodup_cons.mpr ⟨hv, hn⟩)
  subset y hy := by
    rcases List.mem_cons.mp hy with rfl | hy
    · exact hx
    · exact hb.subset y hy
  labels name := by
    rw [label_mem_within_grouped, within_append, List.mem_append, hl, hb.labels,
      label_mem_labelsOf]
    simp only [List.mem_cons, exists_eq_or_imp]
  gotos name := by
    rw [goto_mem_within_grouped, within_append, List.mem_append, hg, hb.gotos]
    simp only [goto_not_mem_labelsOf, List.mem_cons, exists_eq_or_imp, false_or]
    exact or_comm

end Traced

/-- What a visit does: it follows a jump, takes the body of a condition, or completes what the
instruction stands for. -/
theorem visit_cases {p : Program} {walk : BodyWalk} {x : Numbered} {st st' : State}
    {ss : List Stmt} {r : Resume} (h : visit p walk x.1 x.2 st = .ok (ss, r, st')) :
    (∃ t, x.1.goto? = some t ∧ resumeAt p x.2 t = .ok r ∧
      ss = grouped (p.labelsOf x.1.offset ++ [.goto (labelAt t)]) ∧
      st' = ⟨x.2 :: st.visited, st.stack⟩) ∨
    (∃ c t body stack, x.1.goto? = none ∧ st.stack = c :: stack ∧
      walk t ⟨x.2 :: st.visited, stack⟩ = .ok (body, st') ∧ resumeAt p x.2 t = .ok r ∧
      ss = grouped (p.labelsOf x.1.offset ++ [.ifThen c body])) ∨
    ∃ core stack, x.1.goto? = none ∧
      (recover x.1.insn (x.2 + 1)).run st.stack = (.ok core, stack) ∧ r = .next ∧
      ss = grouped (p.labelsOf x.1.offset ++ core) ∧ st' = ⟨x.2 :: st.visited, stack⟩ := by
  unfold visit at h
  cases hk : x.1.insn.kind with
  | goto =>
    simp only [hk, bind_eq_ok] at h
    obtain ⟨t, ht, r', hr, h⟩ := h
    cases h
    refine .inl ⟨t, ?_, hr, rfl, rfl⟩
    rw [Line.goto?, if_pos hk]
    unfold targetOf at ht
    split at ht
    · next he =>
      cases ht
      exact he
    · cases ht
  | gotoIfFalse =>
    rcases hp : (ValueStack.pop (x.2 + 1) x.1.insn.opcode).run st.stack with ⟨popped, stack⟩
    simp only [hk, hp, bind_eq_ok] at h
    obtain ⟨c, rfl, t, -, ⟨body, st1⟩, hb, r', hr, h⟩ := h
    cases h
    exact .inr (.inl ⟨c, t, body, stack, by rw [Line.goto?, hk]; rfl, eq_cons_of_pop hp, hb, hr,
      rfl⟩)
  | _ =>
    rcases hr : (recover x.1.insn (x.2 + 1)).run st.stack with ⟨recovered, stack⟩
    simp only [hk, hr, bind_eq_ok] at h
    obtain ⟨core, rfl, h⟩ := h
    cases h
    exact .inr (.inr ⟨core, stack, by rw [Line.goto?, hk]; rfl, rfl, rfl, rfl, rfl⟩)

/-- What walks are made of: jumps, conditions with their bodies, and plain instructions. -/
inductive Walked (p : Program) : State → List Numbered → List Stmt → State → Prop
  | nil {st : State} : Walked p st [] [] st
  | append {st st1 st2 : State} {xs ys : List Numbered} {ss ss' : List Stmt}
      (first : Walked p st xs ss st1) (second : Walked p st1 ys ss' st2) :
      Walked p st (xs ++ ys) (ss ++ ss') st2
  | goto {st : State} {x : Numbered} {t : Nat} (mem : x ∈ p.lines.zipIdx)
      (fresh : x.2 ∉ st.visited) (jump : x.1.goto? = some t) :
      Walked p st [x] (grouped (p.labelsOf x.1.offset ++ [.goto (labelAt t)]))
        ⟨x.2 :: st.visited, st.stack⟩
  | branch {st st' : State} {x : Numbered} {c : Expr} {stack : ValueStack} {ys : List Numbered}
      {body : List Stmt} (mem : x ∈ p.lines.zipIdx) (fresh : x.2 ∉ st.visited)
      (jump : x.1.goto? = none) (top : st.stack = c :: stack)
      (inner : Walked p ⟨x.2 :: st.visited, stack⟩ ys body st') :
      Walked p st (x :: ys) (grouped (p.labelsOf x.1.offset ++ [.ifThen c body])) st'
  | plain {st : State} {x : Numbered} {core : List Stmt} {stack : ValueStack}
      (mem : x ∈ p.lines.zipIdx) (fresh : x.2 ∉ st.visited) (jump : x.1.goto? = none)
      (run : Recovers x.1.insn st.stack core stack) :
      Walked p st [x] (grouped (p.labelsOf x.1.offset ++ core)) ⟨x.2 :: st.visited, stack⟩

theorem Walked.traced {p : Program} {st st' : State} {lines : List Numbered} {ss : List Stmt}
    (h : Walked p st lines ss st') : Traced p st lines ss st' := by
  induction h with
  | nil => exact .nil p _
  | append first second ih1 ih2 => exact ih1.append ih2
  | goto mem fresh jump =>
    refine .line mem fresh (.nil p _) ?_ ?_
    · intro name
      simp [within, withinStmt]
    · intro name
      simp [within, withinStmt, jump]
  | branch mem fresh jump top inner ih =>
    refine .line mem fresh ih ?_ ?_
    · intro name
      simp [within, withinStmt]
    · intro name
      simp [within, withinStmt, jump]
  | plain mem fresh jump run =>
    have hplain := isPlain_of_recovers run
    refine .line mem fresh (.nil p _) ?_ ?_
    · intro name
      rw [within_of_isPlain hplain]
      exact iff_of_false (fun hm => nomatch hplain _ hm) (by simp [within])
    · intro name
      rw [within_of_isPlain hplain]
      exact iff_of_false (fun hm => nomatch hplain _ hm) (by simp [within, jump])

/-- A visit, if what walks over its body is made of the same. -/
theorem walked_of_visit {p : Program} {walk : BodyWalk}
    (hw : ∀ t st ss st', walk t st = .ok (ss, st') → ∃ ys, Walked p st ys ss st') {x : Numbered}
    (hx : x ∈ p.lines.zipIdx) {st st' : State} (hv : x.2 ∉ st.visited) {ss : List Stmt}
    {r : Resume} (h : visit p walk x.1 x.2 st = .ok (ss, r, st')) :
    ∃ ys, Walked p st (x :: ys) ss st' := by
  rcases visit_cases h with ⟨t, hg, -, rfl, rfl⟩ | ⟨c, t, body, stack, hg, hs, hb, -, rfl⟩ |
    ⟨core, stack, hg, hrun, -, rfl, rfl⟩
  · exact ⟨[], .goto hx hv hg⟩
  · obtain ⟨ys, hys⟩ := hw _ _ _ _ hb
    exact ⟨ys, .branch hx hv hg hs hys⟩
  · exact ⟨[], .plain hx hv hg (recovers_of_run hrun)⟩

theorem walked_of_walkBody {p : Program} {lines : List Numbered}
    (hl : ∀ x ∈ lines, x ∈ p.lines.zipIdx) {target : Nat} {st st' : State} {ss : List Stmt}
    (h : walkBody p lines target st = .ok (ss, st')) : ∃ ys, Walked p st ys ss st' := by
  induction lines generalizing target st ss st' with
  | nil =>
    cases h
    exact ⟨[], .nil⟩
  | cons x rest ih =>
    have hl' : ∀ y ∈ rest, y ∈ p.lines.zipIdx := fun y hy => hl y (List.mem_cons_of_mem _ hy)
    by_cases ht : x.1.offset < target
    · by_cases hv : x.2 ∈ st.visited
      · rw [walkBody_cons_of_mem ht hv] at h
        exact ih hl' h
      · obtain ⟨ss1, r, st1, more, h1, h2, rfl⟩ := (walkBody_cons_eq_ok ht hv).mp h
        obtain ⟨ys, hys⟩ := walked_of_visit (fun _ _ _ _ hb => ih hl' hb)
          (hl x List.mem_cons_self) hv h1
        obtain ⟨zs, hzs⟩ := ih hl' h2
        exact ⟨_, hys.append hzs⟩
    · rw [walkBody_cons_of_le (by omega)] at h
      cases h
      exact ⟨[], .nil⟩

theorem nextUnvisited_spec {visited : List Nat} {index : Nat} {lines rest : List Numbered}
    {x : Numbered} (h : nextUnvisited visited index lines = some (x.1, x.2, rest)) :
    ∃ before, lines = before ++ x :: rest ∧ x.2 ∉ visited ∧
      ∀ y ∈ before, y.2 < index ∨ y.2 ∈ visited := by
  induction lines with
  | nil => cases h
  | cons y lines ih =>
    rw [nextUnvisited] at h
    split at h
    · next hy =>
      obtain ⟨before, rfl, hv, hb⟩ := ih h
      exact ⟨y :: before, rfl, hv, List.forall_mem_cons.mpr ⟨by simpa using hy, hb⟩⟩
    · next hy =>
      simp only [Option.some.injEq, Prod.mk.injEq] at h
      obtain ⟨h1, h2, rfl⟩ := h
      obtain rfl : x = y := Prod.ext h1.symm h2.symm
      exact ⟨[], rfl, fun hv => hy (.inr (by simpa using hv)), by simp⟩

/-- What a step of the walk at the top does: it visits the next line and goes on from there, unless
there is no such line. -/
theorem walk_cases {p : Program} {visits index : Nat} {st st' : State} {ss : List Stmt}
    (h : walk p (visits + 1) index st = .ok (ss, st')) :
    (nextUnvisited st.visited index p.lines.zipIdx = none ∧ ss = [] ∧ st' = st) ∨
    ∃ x rest lines ss1 r st1 more,
      nextUnvisited st.visited index p.lines.zipIdx = some (x.1, x.2, rest) ∧
      visit p (walkBody p rest) x.1 x.2 st = .ok (ss1, r, st1) ∧
      Walked p st (x :: lines) ss1 st1 ∧ Continues p visits (r.index? x.2) st1 more st' ∧
      ss = ss1 ++ more := by
  cases hn : nextUnvisited st.visited index p.lines.zipIdx with
  | none =>
    rw [walk, hn] at h
    cases h
    exact .inl ⟨rfl, rfl, rfl⟩
  | some next =>
    obtain ⟨line, i, rest⟩ := next
    have hn : nextUnvisited st.visited index p.lines.zipIdx =
      some ((line, i).1, (line, i).2, rest) := hn
    obtain ⟨before, hz, hv, -⟩ := nextUnvisited_spec hn
    obtain ⟨ss1, r, st1, more, h1, h2, rfl⟩ := (walk_succ_eq_ok hn).mp h
    have hrest : ∀ y ∈ rest, y ∈ p.lines.zipIdx := by
      intro y hy
      rw [hz]
      simp [hy]
    obtain ⟨ys, hys⟩ := walked_of_visit (fun _ _ _ _ hb => walked_of_walkBody hrest hb)
      (by rw [hz]; simp) hv h1
    exact .inr ⟨(line, i), rest, ys, ss1, r, st1, more, rfl, h1, hys, h2, rfl⟩

/-- **Every walk is listed.** -/
theorem walked_of_walk {p : Program} {visits index : Nat} {st st' : State} {ss : List Stmt}
    (h : walk p visits index st = .ok (ss, st')) : ∃ lines, Walked p st lines ss st' := by
  induction visits generalizing index st ss st' with
  | zero =>
    cases h
    exact ⟨[], .nil⟩
  | succ visits ih =>
    rcases walk_cases h with ⟨-, rfl, rfl⟩ | ⟨x, rest, ys, ss1, r, st1, more, -, -, hys, hc, rfl⟩
    · exact ⟨[], .nil⟩
    · cases hr : r.index? x.2 with
      | none =>
        rw [hr] at hc
        obtain ⟨rfl, rfl⟩ := hc
        exact ⟨_, hys.append .nil⟩
      | some j =>
        rw [hr] at hc
        obtain ⟨zs, hzs⟩ := ih hc
        exact ⟨_, hys.append hzs⟩

theorem traced_of_walk {p : Program} {visits index : Nat} {st st' : State} {ss : List Stmt}
    (h : walk p visits index st = .ok (ss, st')) : ∃ lines, Traced p st lines ss st' := by
  obtain ⟨lines, hw⟩ := walked_of_walk h
  exact ⟨lines, hw.traced⟩

end MapScript
