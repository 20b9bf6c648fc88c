import MapScript.Proofs.Contents
import MapScript.Proofs.RoundTrip

/-!
# Recovered scripts are normal

Code of any origin may jump about.  A recovered script does not: a jump outside all bodies goes to
a label before it or to the one right behind it (`backOrOn_of_recovered`), since the walk goes on at
the target unless it has been there.  This is a property of the statements, so it survives when
they are laid out anew (`jumpsBack_of_backOrOn`), and such code comes back as it is:

    ofInstructions start code = .ok d → build start d.stmts = .ok normal →
      ∃ d', ofInstructions start normal = .ok d' ∧ build start d'.stmts = .ok normal
-/

namespace MapScript

open Structured Script Lowering Linking CodeItem

/-! ## Jumps of the walk -/

namespace Script

/-- Each jump of `ss` outside all bodies goes to a label before it, also one of `seen`, or to the
label right behind it. -/
def BackOrOn (seen ss : List Stmt) : Prop :=
  ∀ before name after, outer ss = before ++ .goto name :: after →
    .label name ∈ within (seen ++ before) ∨ after.head? = some (.label name)

mutual

theorem label_mem_within_outerStmt {name : String} :
    (s : Stmt) → .label name ∈ withinStmt s → .label name ∈ within (outerStmt s)
  | .block body => fun h => by
    rw [withinStmt, List.mem_cons] at h
    exact label_mem_within_outer body (h.resolve_left nofun)
  | .ifThen _ _ | .expr _ | .goto _ | .label _ | .assign _ _ | .ret => fun h => by
    rw [outerStmt, within, within, List.append_nil]
    · exact h
    · exact nofun

/-- Blocks dissolve without loss of labels. -/
theorem label_mem_within_outer {name : String} :
    (ss : List Stmt) → .label name ∈ within ss → .label name ∈ within (outer ss)
  | [] => id
  | s :: rest => fun h => by
    rw [within, List.mem_append] at h
    rw [outer, within_append, List.mem_append]
    rcases h with h | h
    · exact .inl (label_mem_within_outerStmt s h)
    · exact .inr (label_mem_within_outer rest h)

end

theorem backOrOn_labelsOf (seen : List Stmt) (p : Program) (t : Nat) :
    BackOrOn seen (p.labelsOf t) := by
  intro before name after h
  have hm : .goto name ∈ outer (p.labelsOf t) := by simp [h]
  exact absurd (outer_subset _ _ hm) goto_not_mem_labelsOf

/-- Statements one behind the other: the jumps of the first may go to what starts the second. -/
theorem BackOrOn.append {seen xs ys : List Stmt} (hy : BackOrOn (seen ++ outer xs) ys)
    (hx : ∀ before name after, outer xs = before ++ .goto name :: after →
      .label name ∈ within (seen ++ before) ∨
        (after ++ outer ys).head? = some (.label name)) : BackOrOn seen (xs ++ ys) := by
  intro before name after h
  rw [outer_append] at h
  rcases List.append_eq_append_iff.mp h with ⟨mid, rfl, hmid⟩ | ⟨mid, hmid, htail⟩
  · rw [← List.append_assoc]
    exact hy mid name after hmid
  · cases mid with
    | nil =>
      rw [List.append_nil] at hmid
      rw [← hmid, ← List.append_nil (seen ++ outer xs)]
      exact hy [] name after htail.symm
    | cons m mid =>
      cases htail
      exact hx before name mid hmid

end Script

section

variable {start : Nat} {code : List Instruction}

/-- `seen` has the labels of all lines that were visited. -/
def Seen (start : Nat) (code : List Instruction) (st : State) (seen : List Stmt) : Prop :=
  ∀ x ∈ numbered start 0 code, x.2 ∈ st.visited →
    (Program.ofInstructions start code).isLabelled x.1.offset = true →
    .label (labelAt x.1.offset) ∈ within seen

theorem Seen.append {st st' : State} {seen ss : List Stmt} {lines : List Numbered}
    (h : Seen start code st seen) (ht : Traced (.ofInstructions start code) st lines ss st') :
    Seen start code st' (seen ++ outer ss) := by
  intro x hx hv hl
  rw [within_append, List.mem_append]
  rw [ht.visited, List.mem_append] at hv
  rcases hv with hv | hv
  · obtain ⟨y, hy, he⟩ := mem_visitsOf.mp hv
    -- the line that was visited is the one with this number
    have hy' := List.mem_zipIdx_iff_getElem?.mp (ht.subset y hy)
    rw [← Program.zipIdx_lines, List.mem_zipIdx_iff_getElem?, ← he, hy'] at hx
    rw [← Option.some.inj hx] at hl ⊢
    exact .inr (label_mem_within_outer ss ((ht.labels _).mpr ⟨y, hy, hl, rfl⟩))
  · exact .inl (h x hx hv hl)

/-- Where a jump outside of bodies goes, there is a label: one of a visited line, that of the next
visit, or the one that closes the script. -/
theorem backOrOn_of_goto {visits : Nat} {st st1 st' : State} {seen more : List Stmt}
    {x : Numbered} {r : Resume} {t : Nat} (hx : x ∈ numbered start 0 code)
    (hg : x.1.goto? = some t) (hr : resumeAt (.ofInstructions start code) x.2 t = .ok r)
    (hb : Budget (.ofInstructions start code) visits st1) (hs : Seen start code st seen)
    (hv : st1.visited = x.2 :: st.visited)
    (hc : Continues (.ofInstructions start code) visits (r.index? x.2) st1 more st') :
    .label (labelAt t) ∈
        within (seen ++ (Program.ofInstructions start code).labelsOf x.1.offset) ∨
      (outer (more ++ (Program.ofInstructions start code).labelsOf
        (start + codeWidth code))).head? = some (.label (labelAt t)) := by
  have hl := isLabelled_of_goto hx hg
  have hlabels : (Program.ofInstructions start code).labelsOf t = [.label (labelAt t)] := if_pos hl
  unfold resumeAt at hr
  rw [Program.stop_ofInstructions] at hr
  split at hr
  · next he =>
    -- the walk ends, so the closing label follows
    cases hr
    obtain ⟨rfl, -⟩ := hc
    rw [List.nil_append, outer_labelsOf, ← he, hlabels]
    exact .inr rfl
  · split at hr
    · next j hj =>
      cases hr
      obtain ⟨line, hline, rfl⟩ := Program.indexOf?_iff.mp hj
      by_cases hjv : j ∈ st1.visited
      · rw [hv, List.mem_cons] at hjv
        rw [within_append, List.mem_append]
        rcases hjv with rfl | hjv
        · -- a jump to itself
          have hxl : x.1 = line := by
            rw [← Program.zipIdx_lines, List.mem_zipIdx_iff_getElem?] at hx hline
            exact Option.some.inj (hx.symm.trans hline)
          exact .inl (.inr (label_mem_labelsOf.mpr ⟨hxl ▸ hl, by rw [hxl]⟩))
        · exact .inl (.inl (hs (line, j) hline hjv hl))
      · obtain ⟨left, rest, lines, ss1, r, st2, more', -, hvis, -, -, rfl⟩ :=
          visit_of_walk (x := (line, j)) hb hline hjv hc
        obtain ⟨core, hcore⟩ := outer_of_visit hvis
        rw [outer_append, outer_append, hcore, hlabels]
        exact .inr rfl
    · cases hr

/-- **The walk goes back or on.** -/
theorem backOrOn_of_walk {visits index : Nat} {st st' : State} {seen ss : List Stmt}
    (hb : Budget (.ofInstructions start code) visits st) (hs : Seen start code st seen)
    (h : walk (.ofInstructions start code) visits index st = .ok (ss, st')) :
    BackOrOn seen
      (ss ++ (Program.ofInstructions start code).labelsOf (start + codeWidth code)) := by
  induction visits generalizing index st seen ss with
  | zero =>
    cases h
    exact backOrOn_labelsOf _ _ _
  | succ visits ih =>
    rcases walk_cases h with ⟨-, rfl, -⟩ | ⟨x, rest, lines, ss1, r, st1, more, -, hvis, hw, hc, rfl⟩
    · exact backOrOn_labelsOf _ _ _
    · have ht := hw.traced
      have hlater : BackOrOn (seen ++ outer ss1)
          (more ++ (Program.ofInstructions start code).labelsOf (start + codeWidth code)) := by
        cases hr : r.index? x.2 with
        | none =>
          rw [hr] at hc
          obtain ⟨rfl, -⟩ := hc
          exact backOrOn_labelsOf _ _ _
        | some j =>
          rw [hr] at hc
          exact ih (hb.step ht) (hs.append ht) hc
      rw [List.append_assoc]
      refine hlater.append fun before name after hsplit => ?_
      obtain ⟨t, rfl, hg, hr, rfl, rfl, hv⟩ := resume_of_outer_goto hvis hsplit
      have hx : x ∈ numbered start 0 code := by
        rw [← Program.zipIdx_lines]
        exact ht.subset x List.mem_cons_self
      exact backOrOn_of_goto hx hg hr (hb.step ht) hs hv hc

/-- **Jumps of recovered scripts** outside all bodies go back, or to what follows them. -/
theorem backOrOn_of_recovered {d : Structured} (h : Structured.ofInstructions start code = .ok d) :
    BackOrOn [] d.stmts := by
  obtain ⟨ss, st, -, hw, -, -, hd⟩ := exists_traced h
  have hb : Budget (.ofInstructions start code) code.length ⟨[], []⟩ :=
    ⟨List.nodup_nil, by simp, by simp [Program.length_lines]⟩
  rw [hd]
  exact backOrOn_of_walk hb (fun _ _ hv => nomatch hv) hw

end

/-! ## Where the labels stand -/

theorem Linking.offset_le_of_mem_labelsAt {base : Nat} {items : List CodeItem} {x : String × Nat}
    (h : x ∈ labelsAt base items) : x.2 ≤ base + totalWidth items := by
  induction items generalizing base with
  | nil => cases h
  | cons item items ih =>
    rw [totalWidth_cons]
    cases item with
    | label name =>
      rcases List.mem_cons.mp h with rfl | h
      · exact Nat.le_add_right _ _
      · have := ih h
        omega
    | insn opcode operands =>
      have := ih h
      show x.2 ≤ base + (opcode.width + totalWidth items)
      omega

namespace Script

/-- Jumps back or on in the statements are jumps back in the code, wherever it starts. -/
theorem jumpsBack_of_backOrOn (start : Nat) {n : Nat} {stmts : List Stmt} {items : List CodeItem}
    (hl : Lowers 0 stmts items n) (h : BackOrOn [] stmts) : JumpsBack start stmts := by
  intro before name after t hsplit ht
  have hl' := lowers_outer.mpr hl
  rw [hsplit] at hl'
  obtain ⟨c1, m, c2, h1, h2, rfl⟩ := lowers_append.mp hl'
  obtain ⟨c3, m', c4, h3, h4, rfl⟩ := lowers_cons.mp h2
  have hbehind : Lowers 0 (before ++ [.goto name]) (c1 ++ c3) m' :=
    lowers_append.mpr ⟨_, _, _, h1, h3, rfl⟩
  rw [offsetBehind, itemsOf_eq hbehind]
  rw [labelOffset?, itemsOf_eq hl, ← List.append_assoc, labelsAt_append, List.lookup_append] at ht
  -- the first label of this name stands in front of the jump or right behind it
  cases hfirst : (labelsAt start (c1 ++ c3)).lookup name with
  | some t' =>
    rw [hfirst] at ht
    cases ht
    exact offset_le_of_mem_labelsAt (mem_of_lookup hfirst)
  | none =>
    rw [hfirst, Option.none_or] at ht
    rcases h before name after hsplit with hm | hm
    · have hmem : name ∈ c1.filterMap CodeItem.label? :=
        (accounted before h1).labels.mem_iff.mpr (List.mem_append_left _ (mem_labels_iff.mpr hm))
      have hfst : name ∈ (labelsAt start (c1 ++ c3)).map Prod.fst := by
        rw [map_fst_labelsAt, List.filterMap_append]
        exact List.mem_append_left _ hmem
      obtain ⟨x, hx, rfl⟩ := List.mem_map.mp hfst
      simpa using List.lookup_eq_none_iff.mp hfirst x hx
    · obtain ⟨rest, rfl⟩ : ∃ rest, after = .label name :: rest := List.head?_eq_some_iff.mp hm
      obtain ⟨c5, m2, c6, h5, -, rfl⟩ := lowers_cons.mp h4
      obtain ⟨rfl, -⟩ := lowers_label.mp h5
      rw [List.cons_append, labelsAt, List.lookup_cons_self] at ht
      exact Nat.le_of_eq (Option.some.inj ht).symm

/-- **Normal code.**  Building what was recovered from any code gives code that comes back as it
is. -/
theorem build_normal {start : Nat} {code normal : List Instruction} {d : Structured}
    (h : Structured.ofInstructions start code = .ok d) (hn : build start d.stmts = .ok normal) :
    ∃ d', Structured.ofInstructions start normal = .ok d' ∧ build start d'.stmts = .ok normal := by
  obtain ⟨items, n, labels, o, stop, next, hlow, htab, ho, rfl, hd⟩ := exists_outlined_of_build hn
  have hp := Program.build_eq_ok_of_wellNested (ho.laid.wellNested hd)
  have hback := jumpsBack_of_backOrOn start hlow (backOrOn_of_recovered h)
  have hw := ho.laid.walk_start hd (outerGotos_le hlow htab ho hback)
  refine ⟨_, Structured.ofInstructions_eq_ok hp hw, ?_⟩
  rw [← ho.laid.end_eq.1]
  exact ho.laid.build_eq hd (ho.faithful (busy_of_recovered h)) rfl

/-- A jump over `Entity.stop()` at 2, a condition with no reset, and a jump back to 2. -/
def shuffled : List Instruction :=
  (Bytecode.decode [0x200, 3, 0x30D, 0x110, 1, 0x201, 8, 0x30D, 0x200, 2]).toOption.getD []

theorem build_normal_shuffled : ∃ d normal d',
    Structured.ofInstructions 0 shuffled = .ok d ∧ build 0 d.stmts = .ok normal ∧
    normal ≠ shuffled ∧ Structured.ofInstructions 0 normal = .ok d' ∧
    build 0 d'.stmts = .ok normal := by
  let rebuilt := (Structured.ofInstructions 0 shuffled).toOption.map (build 0 ·.stmts)
  have hrebuilt : ∃ normal, rebuilt = some (.ok normal) ∧ normal ≠ shuffled := by
    refine ⟨(Bytecode.decode
      [0x200, 2, 0x100, 0x110, 1, 0x201, 8, 0x30D, 0x200, 10, 0x30D]).toOption.getD [], ?_, ?_⟩
    · decide +kernel
    · decide +kernel
  obtain ⟨normal, hsome, hne⟩ := hrebuilt
  obtain ⟨d, hd, hn⟩ := Option.map_eq_some_iff.mp hsome
  cases hs : Structured.ofInstructions 0 shuffled with
  | error e =>
    rw [hs] at hd
    cases hd
  | ok d0 =>
    rw [hs] at hd
    cases hd
    obtain ⟨d', hd', hb⟩ := build_normal hs hn
    exact ⟨d, normal, d', rfl, hn, hne, hd', hb⟩

end Script

end MapScript
