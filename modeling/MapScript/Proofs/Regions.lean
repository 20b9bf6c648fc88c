import MapScript.Proofs.Placement

/-!
# Regions of conditions

`Program.WellNested` says without reference to how it is checked what the checks look for: jumps
land on lines or at the end, conditions go forward, and the regions that they skip are nested.

The check for regions passes over the lines once and keeps the ends of the regions that are open.
These ascend, they are targets of conditions further up, and they miss only targets that lie behind
the pass (`Open`).  Hence the innermost end decides about all of the conditions further up, and the
check stops at the first line with a fault (`checkRegions_eq_error`).
-/

namespace MapScript

/-- Where a condition goes. -/
def Line.branch? (l : Line) : Option Nat :=
  if l.insn.kind = .gotoIfFalse then l.insn.target? else none

/-- A condition `b` inside the region that the condition `a` skips does not lead out of it. -/
def Line.Encloses (a b : Line) : Prop :=
  ∀ t, a.branch? = some t → b.offset < t → ∀ t', b.branch? = some t' → t' ≤ t

namespace Program

structure WellNested (p : Program) : Prop where
  lands : ∀ l ∈ p.lines, ∀ t, l.insn.target? = some t → t = p.stop ∨ ∃ l' ∈ p.lines, l'.offset = t
  forward : ∀ l ∈ p.lines, ∀ t, l.branch? = some t → l.offset < t
  nested : p.lines.Pairwise Line.Encloses

/-! ## Jumps to nowhere -/

/-- A jump goes neither to a line nor to the end. -/
inductive JumpFault (p : Program) : Numbered → RecoveryError → Prop
  | nowhere {l : Line} {n t : Nat} (target : l.insn.target? = some t) (stop : t ≠ p.stop)
      (line : ∀ l' ∈ p.lines, l'.offset ≠ t) : JumpFault p (l, n) (.targetNotFound n t)

theorem indexOf?_isSome_iff {p : Program} {t : Nat} :
    (p.indexOf? t).isSome = true ↔ ∃ l ∈ p.lines, l.offset = t := by
  rw [indexOf?, List.findIdx?_isSome, List.any_eq_true]
  simp only [beq_iff_eq]

theorem checkJumps_eq_error {p : Program} {lines : List Line} {n : Nat} {e : RecoveryError} :
    p.checkJumps n lines = .error e ↔ FirstFault p.JumpFault (lines.zipIdx n) e := by
  induction lines generalizing n with
  | nil => exact iff_of_false nofun firstFault_nil
  | cons l rest ih =>
    rw [checkJumps, List.zipIdx_cons]
    split
    · next ht =>
      rw [ih, firstFault_cons_of_none]
      rintro _ ⟨target, -, -⟩
      cases ht.symm.trans target
    · next t ht =>
      simp only [indexOf?_isSome_iff]
      by_cases hlands : t = p.stop ∨ ∃ l' ∈ p.lines, l'.offset = t
      · rw [if_pos hlands, ih, firstFault_cons_of_none]
        rintro _ ⟨target, hstop, hline⟩
        cases ht.symm.trans target
        rcases hlands with he | ⟨l', hl', he⟩
        · exact hstop he
        · exact hline l' hl' he
      · have hfault : ∀ e', p.JumpFault (l, n) e' ↔ e' = .targetNotFound n t := by
          intro e'
          constructor
          · rintro ⟨target, -, -⟩
            rw [Option.some.inj (ht.symm.trans target)]
          · rintro rfl
            rw [not_or] at hlands
            exact .nowhere ht hlands.1 fun l' hl' he => hlands.2 ⟨l', hl', he⟩
        rw [if_neg hlands, firstFault_cons_of_fault hfault, Except.error.injEq, eq_comm]

/-! ## Conditions that go back or out of a region -/

/-- A condition goes back, or else out of the region of a condition further up. -/
inductive RegionFault (lines : List Line) : Numbered → RecoveryError → Prop
  | backward {l : Line} {n t : Nat} (branch : l.branch? = some t) (back : t ≤ l.offset) :
      RegionFault lines (l, n) (.backwardBranch n t)
  | overlapping {l a : Line} {n t t' : Nat} (branch : l.branch? = some t) (forward : l.offset < t)
      (mem : a ∈ lines) (earlier : a.offset < l.offset) (around : a.branch? = some t')
      (inside : l.offset < t') (out : t' < t) :
      RegionFault lines (l, n) (.overlappingBranch n t)

theorem mem_dropWhile_le {regions : List Nat} (hs : regions.Pairwise (· ≤ ·)) {o r : Nat} :
    r ∈ regions.dropWhile (· ≤ o) ↔ r ∈ regions ∧ o < r := by
  induction regions with
  | nil => simp
  | cons x xs ih =>
    obtain ⟨hx, hs⟩ := List.pairwise_cons.mp hs
    rw [List.dropWhile_cons]
    by_cases hle : x ≤ o
    · simp only [hle, decide_true, if_true, ih hs, List.mem_cons]
      constructor
      · exact fun h => ⟨.inr h.1, h.2⟩
      · rintro ⟨rfl | hr, hlt⟩
        · omega
        · exact ⟨hr, hlt⟩
    · simp only [hle, decide_false, Bool.false_eq_true, if_false, List.mem_cons]
      refine (and_iff_left_of_imp ?_).symm
      rintro (rfl | hr)
      · omega
      · have := hx r hr
        omega

theorem checkRegions_of_branch?_eq_none {l : Line} (h : l.branch? = none) (n : Nat)
    (regions : List Nat) (rest : List Line) :
    checkRegions n regions (l :: rest) = checkRegions (n + 1) regions rest := by
  rw [checkRegions]
  split
  · next hk =>
    rw [Line.branch?, if_pos hk] at h
    rw [h]
  · rfl

/-- What the check does at a condition: only the regions that end further down matter. -/
theorem checkRegions_of_branch?_eq_some {l : Line} {t : Nat} (h : l.branch? = some t)
    {regions : List Nat} (hs : regions.Pairwise (· ≤ ·)) (n : Nat) (rest : List Line) :
    checkRegions n regions (l :: rest) =
      if t ≤ l.offset then .error (.backwardBranch n t)
      else if ∃ r ∈ regions, l.offset < r ∧ r < t then .error (.overlappingBranch n t)
      else checkRegions (n + 1) (t :: regions.dropWhile (· ≤ l.offset)) rest := by
  have hk : l.insn.kind = .gotoIfFalse ∧ l.insn.target? = some t := by
    unfold Line.branch? at h
    split at h
    · next hk => exact ⟨hk, h⟩
    · cases h
  have hmem : ∀ r, r ∈ regions.dropWhile (· ≤ l.offset) ↔ r ∈ regions ∧ l.offset < r :=
    fun r => mem_dropWhile_le hs
  have hsorted : (regions.dropWhile (· ≤ l.offset)).Pairwise (· ≤ ·) :=
    hs.sublist (List.dropWhile_sublist _)
  rw [checkRegions, if_pos hk.1, hk.2]
  refine if_congr Iff.rfl rfl ?_
  cases hd : regions.dropWhile (· ≤ l.offset) with
  | nil =>
    rw [if_neg]
    rintro ⟨r, hr, hlt, -⟩
    have := (hmem r).mpr ⟨hr, hlt⟩
    rw [hd] at this
    cases this
  | cons around others =>
    rw [hd] at hmem hsorted
    have hall : (∃ r ∈ regions, l.offset < r ∧ r < t) ↔ around < t := by
      constructor
      · rintro ⟨r, hr, hlt, hrt⟩
        rcases List.mem_cons.mp ((hmem r).mpr ⟨hr, hlt⟩) with rfl | hr
        · exact hrt
        · have := List.rel_of_pairwise_cons hsorted hr
          omega
      · intro hlt
        obtain ⟨hr, ho⟩ := (hmem around).mp List.mem_cons_self
        exact ⟨around, hr, ho, hlt⟩
    simp only [hall]

/-- The open regions between the lines that the check has passed and the rest. -/
structure Open (before rest : List Line) (regions : List Nat) : Prop where
  sorted : regions.Pairwise (· ≤ ·)
  sound : ∀ r ∈ regions, ∃ a ∈ before, a.branch? = some r
  complete : ∀ a ∈ before, ∀ t, a.branch? = some t → t ∈ regions ∨ ∀ l ∈ rest, t ≤ l.offset

namespace Open

variable {before rest : List Line} {l : Line} {regions : List Nat} {t : Nat}

theorem skip (h : Open before (l :: rest) regions) (hb : l.branch? = none) :
    Open (before ++ [l]) rest regions where
  sorted := h.sorted
  sound r hr := by
    obtain ⟨a, ha, he⟩ := h.sound r hr
    exact ⟨a, List.mem_append_left _ ha, he⟩
  complete a ha t he := by
    rcases List.mem_append.mp ha with ha | ha
    · exact (h.complete a ha t he).imp_right fun hl l' hl' => hl l' (List.mem_cons_of_mem _ hl')
    · obtain rfl := List.mem_singleton.mp ha
      rw [hb] at he
      cases he

/-- A condition that stays inside all open regions opens one more. -/
theorem enter (h : Open before (l :: rest) regions) (hb : l.branch? = some t)
    (hin : ¬ ∃ r ∈ regions, l.offset < r ∧ r < t) (ha : ∀ l' ∈ rest, l.offset < l'.offset) :
    Open (before ++ [l]) rest (t :: regions.dropWhile (· ≤ l.offset)) where
  sorted := by
    refine List.pairwise_cons.mpr ⟨fun r hr => ?_, h.sorted.sublist (List.dropWhile_sublist _)⟩
    obtain ⟨hr, hlt⟩ := (mem_dropWhile_le h.sorted).mp hr
    by_contra hrt
    exact hin ⟨r, hr, hlt, by omega⟩
  sound r hr := by
    rcases List.mem_cons.mp hr with rfl | hr
    · exact ⟨l, by simp, hb⟩
    · obtain ⟨a, ha, he⟩ := h.sound r ((List.dropWhile_sublist _).subset hr)
      exact ⟨a, List.mem_append_left _ ha, he⟩
  complete a hm t' he := by
    rcases List.mem_append.mp hm with hm | hm
    · rcases h.complete a hm t' he with hr | hl
      · by_cases hlt : l.offset < t'
        · exact .inl (List.mem_cons_of_mem _ ((mem_dropWhile_le h.sorted).mpr ⟨hr, hlt⟩))
        · right
          intro l' hl'
          have := ha l' hl'
          omega
      · exact .inr fun l' hl' => hl l' (List.mem_cons_of_mem _ hl')
    · obtain rfl := List.mem_singleton.mp hm
      rw [hb] at he
      cases he
      exact .inl List.mem_cons_self

/-- The open regions stand for all conditions further up. -/
theorem exists_region_iff (h : Open before (l :: rest) regions) :
    (∃ r ∈ regions, l.offset < r ∧ r < t) ↔
      ∃ a ∈ before, ∃ t', a.branch? = some t' ∧ l.offset < t' ∧ t' < t := by
  constructor
  · rintro ⟨r, hr, hlt, hrt⟩
    obtain ⟨a, ha, he⟩ := h.sound r hr
    exact ⟨a, ha, r, he, hlt, hrt⟩
  · rintro ⟨a, ha, t', he, hlt, hrt⟩
    rcases h.complete a ha t' he with hr | hl
    · exact ⟨t', hr, hlt, hrt⟩
    · have := hl l List.mem_cons_self
      omega

end Open

/-- The check for regions stops at the first condition that goes back or out of a region. -/
theorem checkRegions_eq_error {before rest : List Line} {regions : List Nat}
    (h : Open before rest regions) (ha : (before ++ rest).Pairwise (·.offset < ·.offset))
    {n : Nat} {e : RecoveryError} :
    checkRegions n regions rest = .error e ↔
      FirstFault (RegionFault (before ++ rest)) (rest.zipIdx n) e := by
  -- the lines that have been passed join `before`, so that the faults stay those of the whole code
  induction rest generalizing before regions n with
  | nil => exact iff_of_false nofun firstFault_nil
  | cons l rest ih =>
    obtain ⟨-, hl, hcross⟩ := List.pairwise_append.mp ha
    have hbefore : ∀ a ∈ before ++ l :: rest, a.offset < l.offset → a ∈ before := by
      intro a hm hlt
      rcases List.mem_append.mp hm with hm | hm
      · exact hm
      · rcases List.mem_cons.mp hm with rfl | hm
        · omega
        · have := List.rel_of_pairwise_cons hl hm
          omega
    have hsplit : before ++ l :: rest = (before ++ [l]) ++ rest := by simp
    have ih' := fun regions' (h' : Open (before ++ [l]) rest regions') =>
      ih h' (hsplit ▸ ha) (n := n + 1)
    rw [← hsplit] at ih'
    rw [List.zipIdx_cons]
    cases hb : l.branch? with
    | none =>
      rw [checkRegions_of_branch?_eq_none hb, ih' _ (h.skip hb), firstFault_cons_of_none]
      rintro _ (⟨branch, -⟩ | ⟨branch, -⟩) <;> cases hb.symm.trans branch
    | some t =>
      rw [checkRegions_of_branch?_eq_some hb h.sorted]
      by_cases hback : t ≤ l.offset
      · have hfault : ∀ e', RegionFault (before ++ l :: rest) (l, n) e' ↔
            e' = .backwardBranch n t := by
          intro e'
          constructor
          · rintro (⟨branch, -⟩ | ⟨branch, forward, -⟩)
            · rw [Option.some.inj (hb.symm.trans branch)]
            · cases hb.symm.trans branch
              omega
          · rintro rfl
            exact .backward hb hback
        rw [if_pos hback, firstFault_cons_of_fault hfault, Except.error.injEq, eq_comm]
      · rw [if_neg hback]
        by_cases hout : ∃ r ∈ regions, l.offset < r ∧ r < t
        · have hfault : ∀ e', RegionFault (before ++ l :: rest) (l, n) e' ↔
              e' = .overlappingBranch n t := by
            intro e'
            constructor
            · rintro (⟨branch, back⟩ | ⟨branch, -⟩)
              · cases hb.symm.trans branch
                omega
              · rw [Option.some.inj (hb.symm.trans branch)]
            · rintro rfl
              obtain ⟨a, hm, t', around, inside, out⟩ := h.exists_region_iff.mp hout
              exact .overlapping hb (by omega) (List.mem_append_left _ hm)
                (hcross a hm l List.mem_cons_self) around inside out
          rw [if_pos hout, firstFault_cons_of_fault hfault, Except.error.injEq, eq_comm]
        · rw [if_neg hout, ih' _ (h.enter hb hout fun l' => List.rel_of_pairwise_cons hl),
            firstFault_cons_of_none]
          rintro _ (⟨branch, back⟩ | ⟨branch, -, mem, earlier, around, inside, out⟩)
          · cases hb.symm.trans branch
            omega
          · cases hb.symm.trans branch
            exact hout (h.exists_region_iff.mpr
              ⟨_, hbefore _ mem earlier, _, around, inside, out⟩)

/-! ## Which code is accepted -/

theorem forall_mem_zipIdx_fst {lines : List Line} {n : Nat} {P : Line → Prop} :
    (∀ x ∈ lines.zipIdx n, P x.1) ↔ ∀ l ∈ lines, P l := by
  rw [← List.forall_mem_map (f := Prod.fst), List.zipIdx_map_fst]

/-- No jump goes to nowhere if and only if each one lands. -/
theorem forall_not_jumpFault {p : Program} {n : Nat} :
    (∀ x ∈ p.lines.zipIdx n, ∀ e, ¬ p.JumpFault x e) ↔ ∀ l ∈ p.lines, ∀ t,
      l.insn.target? = some t → t = p.stop ∨ ∃ l' ∈ p.lines, l'.offset = t := by
  rw [← forall_mem_zipIdx_fst (n := n)]
  refine forall₂_congr fun ⟨l, m⟩ _ => ?_
  constructor
  · intro h t ht
    by_contra hno
    rw [not_or] at hno
    exact h _ (.nowhere ht hno.1 fun l' hl' he => hno.2 ⟨l', hl', he⟩)
  · rintro h _ ⟨target, stop, line⟩
    rcases h _ target with he | ⟨l', hl', he⟩
    · exact stop he
    · exact line l' hl' he

/-- No region is at fault if and only if conditions go forward and stay in the regions around. -/
theorem forall_not_regionFault {lines : List Line} {n : Nat} :
    (∀ x ∈ lines.zipIdx n, ∀ e, ¬ RegionFault lines x e) ↔
      (∀ l ∈ lines, ∀ t, l.branch? = some t → l.offset < t) ∧
        ∀ b ∈ lines, ∀ a ∈ lines, a.offset < b.offset → a.Encloses b := by
  rw [← forall₂_and, ← forall_mem_zipIdx_fst (n := n)]
  refine forall₂_congr fun ⟨l, m⟩ _ => ?_
  constructor
  · intro h
    have hforward : ∀ t, l.branch? = some t → l.offset < t := by
      intro t ht
      by_contra hle
      exact h _ (.backward ht (by omega))
    refine ⟨hforward, fun a ha hlt t ht hin t' ht' => ?_⟩
    by_contra hout
    exact h _ (.overlapping ht' (hforward t' ht') ha hlt ht hin (by omega))
  · rintro ⟨hforward, hnested⟩ _ (⟨branch, back⟩ | ⟨branch, -, mem, earlier, around, inside, out⟩)
    · exact absurd (hforward _ branch) (Nat.not_lt.mpr back)
    · exact absurd (hnested _ mem earlier _ around inside _ branch) (Nat.not_le.mpr out)

section

variable {start : Nat} {code : List Instruction}

theorem lines_ascend (start : Nat) (code : List Instruction) :
    (ofInstructions start code).lines.Pairwise (·.offset < ·.offset) := by
  rw [lines_ofInstructions, List.pairwise_map]
  exact (numbered_pairwise start 0 code).imp And.left

/-- The order of lines is that of their offsets. -/
theorem pairwise_encloses_iff : (ofInstructions start code).lines.Pairwise Line.Encloses ↔
    ∀ b ∈ (ofInstructions start code).lines, ∀ a ∈ (ofInstructions start code).lines,
      a.offset < b.offset → a.Encloses b := by
  have hasc := lines_ascend start code
  constructor
  · intro h b hb a ha
    refine List.Pairwise.forall_of_forall_of_flip
      (R := fun a b : Line => a.offset < b.offset → a.Encloses b)
      (fun _ _ hlt => absurd hlt (Nat.lt_irrefl _)) (h.imp ?_) (hasc.imp ?_) ha hb
    · exact fun he _ => he
    · exact fun hlt hgt => absurd hlt (Nat.lt_asymm hgt)
  · intro h
    exact hasc.imp_of_mem fun ha hb hlt => h _ hb _ ha hlt

theorem checkRegions_lines {e : RecoveryError} :
    checkRegions 1 [] (ofInstructions start code).lines = .error e ↔
      FirstFault (RegionFault (ofInstructions start code).lines)
        ((ofInstructions start code).lines.zipIdx 1) e := by
  have hopen : Open [] (ofInstructions start code).lines [] := ⟨.nil, by simp, by simp⟩
  exact checkRegions_eq_error hopen (lines_ascend start code)

theorem build_eq_error {e : RecoveryError} : build start code = .error e ↔
    FirstFault (ofInstructions start code).JumpFault
        ((ofInstructions start code).lines.zipIdx 1) e ∨
      (∀ x ∈ (ofInstructions start code).lines.zipIdx 1, ∀ e',
        ¬ (ofInstructions start code).JumpFault x e') ∧
        FirstFault (RegionFault (ofInstructions start code).lines)
          ((ofInstructions start code).lines.zipIdx 1) e := by
  rw [← checkJumps_eq_error, ← checkRegions_lines, build, bind_eq_error,
    ← exists_ok_iff_of_firstFault fun _ => checkJumps_eq_error, exists_and_right]
  refine or_congr_right (and_congr_right fun _ => ?_)
  rw [bind_eq_error]
  exact or_iff_left fun ⟨_, _, h⟩ => nomatch h

theorem build_eq_ok {p : Program} : build start code = .ok p ↔
    p = ofInstructions start code ∧ (ofInstructions start code).WellNested := by
  have hnested : (ofInstructions start code).WellNested ↔
      (∃ u, (ofInstructions start code).checkJumps 1 (ofInstructions start code).lines = .ok u) ∧
        ∃ u, checkRegions 1 [] (ofInstructions start code).lines = .ok u := by
    rw [exists_ok_iff_of_firstFault fun _ => checkJumps_eq_error,
      exists_ok_iff_of_firstFault fun _ => checkRegions_lines, forall_not_jumpFault,
      forall_not_regionFault, ← pairwise_encloses_iff]
    exact ⟨fun h => ⟨h.lands, h.forward, h.nested⟩, fun h => ⟨h.1, h.2.1, h.2.2⟩⟩
  simp only [hnested, build, bind_eq_ok]
  constructor
  · rintro ⟨u, hj, u', hr, h⟩
    exact ⟨(Except.ok.inj h).symm, ⟨u, hj⟩, u', hr⟩
  · rintro ⟨rfl, ⟨u, hj⟩, u', hr⟩
    exact ⟨u, hj, u', hr, rfl⟩

/-- Well-nested programs are accepted. -/
theorem build_eq_ok_of_wellNested (h : (ofInstructions start code).WellNested) :
    build start code = .ok (ofInstructions start code) := build_eq_ok.mpr ⟨rfl, h⟩

end

/-- **The checks are exact.**  Code is accepted if and only if jumps land on lines or at the end,
conditions go forward, and of two conditions of which the first skips the second the second does not
lead further.  Otherwise the first jump to nowhere is reported, or, if each one lands, the first
condition that goes back or out of the region of a condition further up. -/
theorem build_exact (start : Nat) (code : List Instruction) :
    let p := ofInstructions start code
    (∀ q, build start code = .ok q ↔ q = p ∧
      (∀ l ∈ p.lines, ∀ t, l.insn.target? = some t →
        t = p.stop ∨ ∃ l' ∈ p.lines, l'.offset = t) ∧
      (∀ l ∈ p.lines, ∀ t, l.branch? = some t → l.offset < t) ∧
      ∀ b ∈ p.lines, ∀ a ∈ p.lines, a.offset < b.offset → a.Encloses b) ∧
    ∀ e, build start code = .error e ↔
      FirstFault p.JumpFault (p.lines.zipIdx 1) e ∨
      (∀ x ∈ p.lines.zipIdx 1, ∀ e', ¬ p.JumpFault x e') ∧
        FirstFault (RegionFault p.lines) (p.lines.zipIdx 1) e := by
  intro p
  refine ⟨fun q => ?_, fun e => build_eq_error⟩
  rw [build_eq_ok, ← pairwise_encloses_iff]
  refine and_congr_right fun _ => ?_
  exact ⟨fun h => ⟨h.lands, h.forward, h.nested⟩, fun h => ⟨h.1, h.2.1, h.2.2⟩⟩

/-- Three conditions, of which the last leads out of the region of the second. -/
example : build 0 [⟨.gotoIfFalse, [8]⟩, ⟨.gotoIfFalse, [6]⟩, ⟨.gotoIfFalse, [8]⟩, ⟨.goto, [8]⟩] =
    .error (.overlappingBranch 3 8) := by decide

end Program

end MapScript
