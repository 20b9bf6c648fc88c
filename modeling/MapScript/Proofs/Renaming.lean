import MapScript.Proofs.Labels

/-!
# Renaming labels

The labels of a script and those that its conditions jump to share one table.  The names of
labels carry no meaning as long as a renaming keeps the two kinds apart:

* linking does not see names that are renamed one to one (`link_renamed`), and
* code is renamed along with the statements if the labels of conditions stay (`lowers_renamed`).

A script may have labels with the names of its conditions' own; it is `Free` if it has none.
-/

namespace MapScript

open Lowering Linking CodeItem

/-! ## Renamed code -/

def Operand.renamed (r : String → String) : Operand → Operand
  | value v => value v
  | label name => label (r name)

namespace CodeItem

def renamed (r : String → String) : CodeItem → CodeItem
  | insn opcode operands => insn opcode (operands.map (Operand.renamed r))
  | label name => label (r name)

theorem renamed_ofInstruction (r : String → String) (code : List Instruction) :
    (code.map ofInstruction).map (renamed r) = code.map ofInstruction := by
  rw [List.map_map]
  refine List.map_congr_left fun i _ => ?_
  simp [ofInstruction, renamed, Operand.renamed]

end CodeItem

namespace Linking

theorem labelsAt_renamed (r : String → String) (base : Nat) (items : List CodeItem) :
    labelsAt base (items.map (renamed r)) = (labelsAt base items).map (Prod.map r id) := by
  induction items generalizing base with
  | nil => rfl
  | cons item items ih =>
    cases item with
    | label name => exact congrArg ((r name, base) :: ·) (ih base)
    | insn opcode operands => exact ih _

section

variable {r : String → String} {known : List String}
  (hr : ∀ x ∈ known, ∀ y ∈ known, r x = r y → x = y)
include hr

theorem lookup_renamed {labels : List (String × Nat)} (hl : ∀ x ∈ labels, x.1 ∈ known)
    {name : String} (hn : name ∈ known) :
    (labels.map (Prod.map r id)).lookup (r name) = labels.lookup name := by
  induction labels with
  | nil => rfl
  | cons x labels ih =>
    obtain ⟨hx, hl⟩ := List.forall_mem_cons.mp hl
    have hsame : (r name == r x.1) = (name == x.1) := by
      rw [Bool.eq_iff_iff, beq_iff_eq, beq_iff_eq]
      exact ⟨hr name hn x.1 hx, congrArg r⟩
    rw [List.map_cons, List.lookup_cons, List.lookup_cons, ih hl]
    simp [hsame]

theorem linkOperands_renamed {labels : List (String × Nat)} (hl : ∀ x ∈ labels, x.1 ∈ known)
    {operands : List Operand} (ho : ∀ x ∈ operands.filterMap Operand.label?, x ∈ known)
    {words : List UInt16} :
    (operands.map (Operand.renamed r)).mapM (linkOperand (labels.map (Prod.map r id))) =
        .ok words ↔ operands.mapM (linkOperand labels) = .ok words := by
  induction operands generalizing words with
  | nil => rfl
  | cons o operands ih =>
    have hrest : ∀ x ∈ operands.filterMap Operand.label?, x ∈ known := fun x hx => ho x (by
      rw [List.filterMap_cons]
      split
      · exact hx
      · exact List.mem_cons_of_mem _ hx)
    have hfirst (w : UInt16) : linkOperand (labels.map (Prod.map r id)) (o.renamed r) = .ok w ↔
        linkOperand labels o = .ok w := by
      cases o with
      | value v => rfl
      | label name =>
        rw [Operand.renamed, linkOperand_label, linkOperand_label,
          lookup_renamed hr hl (ho name (by simp [Operand.label?]))]
    simp only [List.map_cons, List.mapM_cons, bind_eq_ok, hfirst, ih hrest]

theorem linkAll_renamed {labels : List (String × Nat)} (hl : ∀ x ∈ labels, x.1 ∈ known)
    {items : List CodeItem} (hi : ∀ x ∈ items.flatMap names, x ∈ known)
    {code : List Instruction} :
    linkAll (labels.map (Prod.map r id)) (items.map (renamed r)) = .ok code ↔
      linkAll labels items = .ok code := by
  induction items generalizing code with
  | nil => rfl
  | cons item items ih =>
    rw [List.flatMap_cons, List.forall_mem_append] at hi
    cases item with
    | label name => exact ih hi.2
    | insn opcode operands =>
      rw [List.map_cons, renamed, linkAll_insn, linkAll_insn]
      simp only [linkOperands_renamed hr hl hi.1, ih hi.2]

/-- **Linking does not see names.** -/
theorem link_renamed {items : List CodeItem} (hi : ∀ x ∈ items.flatMap names, x ∈ known)
    {base : Nat} {code : List Instruction} :
    link base (items.map (renamed r)) = .ok code ↔ link base items = .ok code := by
  have hl : ∀ x ∈ (labelsAt base items).reverse, x.1 ∈ known := by
    intro x hx
    have hname : x.1 ∈ items.filterMap label? := by
      rw [← map_fst_labelsAt base]
      exact List.mem_map_of_mem (List.mem_reverse.mp hx)
    obtain ⟨item, hitem, hsome⟩ := List.mem_filterMap.mp hname
    refine hi x.1 (List.mem_flatMap.mpr ⟨item, hitem, ?_⟩)
    cases item with
    | label name =>
      cases hsome
      exact List.mem_singleton.mpr rfl
    | insn _ _ => cases hsome
  have hnodup : (((labelsAt base items).reverse.map (Prod.map r id)).map Prod.fst).Nodup ↔
      ((labelsAt base items).reverse.map Prod.fst).Nodup := by
    rw [List.map_map, show Prod.fst ∘ Prod.map r id = r ∘ (Prod.fst : String × Nat → String)
      from rfl, ← List.map_map]
    refine ⟨List.Nodup.of_map r, fun h => h.map_on ?_⟩
    intro x hx y hy
    obtain ⟨x', hx', rfl⟩ := List.mem_map.mp hx
    obtain ⟨y', hy', rfl⟩ := List.mem_map.mp hy
    exact hr _ (hl x' hx') _ (hl y' hy')
  simp only [link_eq_ok, labelTable_eq_ok, labelsAt_renamed, ← List.map_reverse]
  constructor
  · rintro ⟨labels, ⟨rfl, hn⟩, hc⟩
    exact ⟨_, ⟨rfl, hnodup.mp hn⟩, (linkAll_renamed hr hl hi).mp hc⟩
  · rintro ⟨labels, ⟨rfl, hn⟩, hc⟩
    exact ⟨_, ⟨rfl, hnodup.mpr hn⟩, (linkAll_renamed hr hl hi).mpr hc⟩

end

end Linking

/-! ## Renamed scripts -/

namespace Script

mutual

def renamedStmt (r : String → String) : Stmt → Stmt
  | .ifThen condition body => .ifThen condition (renamed r body)
  | .block body => .block (renamed r body)
  | .goto name => .goto (r name)
  | .label name => .label (r name)
  | .expr e => .expr e
  | .assign target value => .assign target value
  | .ret => .ret

/-- The statements with other names for their labels. -/
def renamed (r : String → String) : List Stmt → List Stmt
  | [] => []
  | s :: rest => renamedStmt r s :: renamed r rest

end

theorem renamed_append (r : String → String) (xs ys : List Stmt) :
    renamed r (xs ++ ys) = renamed r xs ++ renamed r ys := by
  induction xs with
  | nil => rfl
  | cons s xs ih => rw [List.cons_append, renamed, renamed, ih, List.cons_append]

/-! ## Code of renamed scripts -/

theorem renamed_of_isPhrase {items : List CodeItem} {idle : Bool} (h : IsPhrase items idle)
    (r : String → String) : items.map (CodeItem.renamed r) = items := by
  obtain ⟨init, last, -, -, rfl, -⟩ := h
  exact renamed_ofInstruction r _

/-- A statement whose code does not change. -/
theorem lowers_of_fixed {r : String → String} {n : Nat} {s : Stmt}
    (h : ∀ items n', Lowers n [s] items n' → items.map (CodeItem.renamed r) = items) {n' : Nat}
    {items : List CodeItem} :
    Lowers n [s] items n' ↔
      ∃ before, Lowers n [s] before n' ∧ items = before.map (CodeItem.renamed r) := by
  constructor
  · intro hl
    exact ⟨items, hl, (h items n' hl).symm⟩
  · rintro ⟨before, hl, rfl⟩
    rwa [h before n' hl]

theorem renamed_branchItems {r : String → String} {n : Nat} (hr : r (endLabel n) = endLabel n)
    {condition : Expr} {c : List CodeItem} (hc : ofExpr condition = ⟨c, none⟩) :
    (branchItems n c).map (CodeItem.renamed r) = branchItems n c := by
  obtain ⟨load, -, -, hload⟩ := exists_loads condition (by rw [hc])
  rw [hload] at hc
  cases hc
  rw [branchItems, List.map_append]
  congr 1
  · exact renamed_ofInstruction r (⟨.reset, []⟩ :: load)
  · simp [CodeItem.renamed, Operand.renamed, hr]

mutual

theorem lowers_renamedStmt {r : String → String} : (s : Stmt) → {n n' : Nat} →
    {items : List CodeItem} → (∀ x ∈ ownLabelsFrom n [s], r x = x) →
    (Lowers n [renamedStmt r s] items n' ↔
      ∃ before, Lowers n [s] before n' ∧ items = before.map (CodeItem.renamed r))
  | .expr e => fun _ => by
    rw [renamedStmt]
    refine lowers_of_fixed fun items n' h => ?_
    obtain ⟨c, he, rfl, -⟩ := lowers_expr.mp h
    exact renamed_of_isPhrase (isPhrase_expr he) r
  | .ifThen condition body => fun hr => by
    rw [ownLabelsFrom_ifThen, List.forall_mem_cons] at hr
    rw [renamedStmt]
    constructor
    · intro h
      obtain ⟨c, b, hc, hb, rfl⟩ := lowers_ifThen.mp h
      obtain ⟨b', hb', rfl⟩ := (lowers_renamed body hr.2).mp hb
      refine ⟨_, lowers_ifThen.mpr ⟨c, b', hc, hb', rfl⟩, ?_⟩
      rw [List.map_append, List.map_append, renamed_branchItems hr.1 hc]
      simp [CodeItem.renamed, hr.1]
    · rintro ⟨before, h, rfl⟩
      obtain ⟨c, b, hc, hb, rfl⟩ := lowers_ifThen.mp h
      refine lowers_ifThen.mpr ⟨c, _, hc, (lowers_renamed body hr.2).mpr ⟨b, hb, rfl⟩, ?_⟩
      rw [List.map_append, List.map_append, renamed_branchItems hr.1 hc]
      simp [CodeItem.renamed, hr.1]
  | .goto name => fun _ => by
    rw [renamedStmt, lowers_goto]
    constructor
    · rintro ⟨rfl, rfl⟩
      exact ⟨_, lowers_goto.mpr ⟨rfl, rfl⟩, rfl⟩
    · rintro ⟨before, h, rfl⟩
      obtain ⟨rfl, rfl⟩ := lowers_goto.mp h
      exact ⟨rfl, rfl⟩
  | .label name => fun _ => by
    rw [renamedStmt, lowers_label]
    constructor
    · rintro ⟨rfl, rfl⟩
      exact ⟨_, lowers_label.mpr ⟨rfl, rfl⟩, rfl⟩
    · rintro ⟨before, h, rfl⟩
      obtain ⟨rfl, rfl⟩ := lowers_label.mp h
      exact ⟨rfl, rfl⟩
  | .assign target value => fun _ => by
    rw [renamedStmt]
    refine lowers_of_fixed fun items n' h => ?_
    obtain ⟨c, he, rfl, -⟩ := lowers_assign.mp h
    exact renamed_of_isPhrase (isPhrase_assign he false) r
  | .ret => fun _ => by
    rw [renamedStmt]
    refine lowers_of_fixed fun items n' h => ?_
    obtain ⟨rfl, -⟩ := lowers_ret.mp h
    exact renamed_of_isPhrase phrase_ret r
  | .block body => fun hr => by
    rw [ownLabelsFrom_block] at hr
    rw [renamedStmt, lowers_block, lowers_renamed body hr]
    simp only [lowers_block]

/-- **Code is renamed along with the statements** if the labels of conditions stay. -/
theorem lowers_renamed {r : String → String} : (stmts : List Stmt) → {n n' : Nat} →
    {items : List CodeItem} → (∀ x ∈ ownLabelsFrom n stmts, r x = x) →
    (Lowers n (renamed r stmts) items n' ↔
      ∃ before, Lowers n stmts before n' ∧ items = before.map (CodeItem.renamed r))
  | [] => fun _ => by
    rw [renamed, lowers_nil]
    constructor
    · rintro ⟨rfl, rfl⟩
      exact ⟨[], lowers_nil.mpr ⟨rfl, rfl⟩, rfl⟩
    · rintro ⟨before, h, rfl⟩
      obtain ⟨rfl, rfl⟩ := lowers_nil.mp h
      exact ⟨rfl, rfl⟩
  | s :: rest => fun hr => by
    rw [ownLabelsFrom_cons, List.forall_mem_append] at hr
    rw [renamed, lowers_cons]
    constructor
    · rintro ⟨c1, m, c2, h1, h2, rfl⟩
      obtain ⟨b1, hb1, rfl⟩ := (lowers_renamedStmt s hr.1).mp h1
      obtain rfl := (accounted_stmt s hb1).next
      obtain ⟨b2, hb2, rfl⟩ := (lowers_renamed rest hr.2).mp h2
      exact ⟨b1 ++ b2, lowers_cons.mpr ⟨b1, _, b2, hb1, hb2, rfl⟩, List.map_append.symm⟩
    · rintro ⟨before, h, rfl⟩
      obtain ⟨b1, m, b2, h1, h2, rfl⟩ := lowers_cons.mp h
      obtain rfl := (accounted_stmt s h1).next
      exact ⟨_, _, _, (lowers_renamedStmt s hr.1).mpr ⟨b1, h1, rfl⟩,
        (lowers_renamed rest hr.2).mpr ⟨b2, h2, rfl⟩, List.map_append⟩

end

theorem build_eq_ok_iff_link {start : Nat} {stmts : List Stmt} {code : List Instruction} :
    build start stmts = .ok code ↔
      ∃ items n, Lowers 0 stmts items n ∧ link start items = .ok code := by
  simp only [build_eq_ok, link_eq_ok]
  constructor
  · rintro ⟨items, n, labels, hl, h⟩
    exact ⟨items, n, hl, labels, h⟩
  · rintro ⟨items, n, hl, labels, h⟩
    exact ⟨items, n, labels, hl, h⟩

/-- The labels of conditions stay, and none is given to another label. -/
theorem build_renamed_of_fixed {r : String → String} {stmts : List Stmt}
    (hfix : ∀ x ∈ ownLabels stmts, r x = x)
    (hr : ∀ x ∈ labelNames stmts ++ ownLabels stmts, ∀ y ∈ labelNames stmts ++ ownLabels stmts,
      r x = r y → x = y) (start : Nat) (code : List Instruction) :
    build start (renamed r stmts) = .ok code ↔ build start stmts = .ok code := by
  have hlink {items : List CodeItem} {n : Nat} (h : Lowers 0 stmts items n) :
      link start (items.map (CodeItem.renamed r)) = .ok code ↔ link start items = .ok code :=
    link_renamed hr fun x hx => List.mem_append.mpr (((accounted stmts h).names x).mp hx)
  simp only [build_eq_ok_iff_link, lowers_renamed stmts hfix]
  constructor
  · rintro ⟨items, n, ⟨before, hb, rfl⟩, hc⟩
    exact ⟨before, n, hb, (hlink hb).mp hc⟩
  · rintro ⟨before, n, hb, hc⟩
    exact ⟨_, n, ⟨before, hb, rfl⟩, (hlink hb).mpr hc⟩

/-! ## Names of renamed scripts -/

mutual

theorem within_renamedStmt (r : String → String) : (s : Stmt) →
    withinStmt (renamedStmt r s) = (withinStmt s).map (renamedStmt r)
  | .ifThen condition body => by
    rw [renamedStmt, withinStmt, withinStmt, within_renamed r body, List.map_cons, renamedStmt]
  | .block body => by
    rw [renamedStmt, withinStmt, withinStmt, within_renamed r body, List.map_cons, renamedStmt]
  | .expr _ | .goto _ | .label _ | .assign _ _ | .ret => by
    simp [renamedStmt, withinStmt]

theorem within_renamed (r : String → String) : (stmts : List Stmt) →
    within (renamed r stmts) = (within stmts).map (renamedStmt r)
  | [] => rfl
  | s :: rest => by
    rw [renamed, within, within, within_renamedStmt r s, within_renamed r rest, List.map_append]

end

theorem labelNames_renamed (r : String → String) (stmts : List Stmt) :
    labelNames (renamed r stmts) = (labelNames stmts).map r := by
  rw [labelNames, within_renamed, List.filterMap_map, labelNames, List.map_filterMap]
  refine List.filterMap_congr fun s _ => ?_
  cases s <;> rfl

theorem labels_renamed (r : String → String) (stmts : List Stmt) :
    labels (renamed r stmts) = (labels stmts).map r := by
  rw [labels, within_renamed, List.filterMap_map, labels, List.map_filterMap]
  refine List.filterMap_congr fun s _ => ?_
  cases s <;> rfl

theorem conditions_renamed (r : String → String) (stmts : List Stmt) :
    conditions (renamed r stmts) = conditions stmts := by
  rw [conditions, within_renamed, List.countP_map, conditions]
  refine List.countP_congr fun s _ => ?_
  cases s <;> rfl

theorem ownLabels_renamed (r : String → String) (stmts : List Stmt) :
    ownLabels (renamed r stmts) = ownLabels stmts := by
  rw [ownLabels, ownLabelsFrom, conditions_renamed]
  rfl

mutual

theorem renamedStmt_congr {r r' : String → String} : (s : Stmt) →
    (∀ x ∈ labelNames [s], r x = r' x) → renamedStmt r s = renamedStmt r' s
  | .ifThen condition body => fun h => by
    rw [renamedStmt, renamedStmt, renamed_congr body (labelNames_ifThen body condition ▸ h)]
  | .block body => fun h => by
    rw [renamedStmt, renamedStmt, renamed_congr body (labelNames_block body ▸ h)]
  | .goto name => fun h => congrArg Stmt.goto (h name List.mem_cons_self)
  | .label name => fun h => congrArg Stmt.label (h name List.mem_cons_self)
  | .expr _ | .assign _ _ | .ret => fun _ => rfl

theorem renamed_congr {r r' : String → String} : (stmts : List Stmt) →
    (∀ x ∈ labelNames stmts, r x = r' x) → renamed r stmts = renamed r' stmts
  | [] => fun _ => rfl
  | s :: rest => fun h => by
    rw [labelNames_cons, List.forall_mem_append] at h
    rw [renamed, renamed, renamedStmt_congr s h.1, renamed_congr rest h.2]

end

/-! ## Which renamings are not seen -/

section

variable {stmts : List Stmt} {r : String → String}
  (hr : ∀ x ∈ labelNames stmts, ∀ y ∈ labelNames stmts, r x = r y → x = y)
include hr

/-- Where both scripts are built, both are free or neither is. -/
theorem free_renamed_iff {start : Nat} {code code' : List Instruction}
    (h : build start stmts = .ok code) (h' : build start (renamed r stmts) = .ok code') :
    Free (renamed r stmts) ↔ Free stmts := by
  constructor
  · intro hfree x hx hx'
    -- the script goes to the label of a condition, the renamed one to a label of its own
    have hrx : r x ∈ labelNames (renamed r stmts) := by
      rw [labelNames_renamed]
      exact List.mem_map_of_mem hx
    have hlabel := (mem_labels_of_build h' hrx).resolve_right (hfree _ hrx)
    rw [labels_renamed] at hlabel
    obtain ⟨y, hy, hxy⟩ := List.mem_map.mp hlabel
    obtain rfl := hr y (mem_labelNames_of_mem_labels hy) x hx hxy
    exact not_mem_ownLabels_of_build h hy hx'
  · intro hfree y hy hy'
    rw [labelNames_renamed] at hy
    obtain ⟨x, hx, rfl⟩ := List.mem_map.mp hy
    have hlabel := (mem_labels_of_build h hx).resolve_right (hfree x hx)
    have hrlabel : r x ∈ labels (renamed r stmts) := by
      rw [labels_renamed]
      exact List.mem_map_of_mem hlabel
    exact not_mem_ownLabels_of_build h' hrlabel hy'

/-- A renaming that leaves the labels of conditions to them is not seen. -/
theorem build_renamed
    (hown : ∀ x ∈ labelNames stmts, x ∈ ownLabels stmts ∨ r x ∈ ownLabels stmts → r x = x)
    (start : Nat) (code : List Instruction) :
    build start (renamed r stmts) = .ok code ↔ build start stmts = .ok code := by
  -- the renaming goes on to all labels of the code, where those of conditions stay
  let r' : String → String := fun x => if x ∈ ownLabels stmts then x else r x
  have hfix : ∀ x ∈ ownLabels stmts, r' x = x := fun x hx => if_pos hx
  have hsame : ∀ x ∈ labelNames stmts, r x = r' x := by
    intro x hx
    by_cases ho : x ∈ ownLabels stmts
    · rw [hfix x ho, hown x hx (.inl ho)]
    · exact (if_neg ho).symm
  have happart : ∀ x ∈ ownLabels stmts, ∀ y ∈ labelNames stmts, r' x = r' y → x = y := by
    intro x hx y hy h
    rw [hfix x hx, ← hsame y hy] at h
    rw [h, hown y hy (.inr (h ▸ hx))]
  rw [renamed_congr stmts hsame]
  refine build_renamed_of_fixed hfix ?_ start code
  intro x hx y hy h
  rcases List.mem_append.mp hx with hx | hx
  · rcases List.mem_append.mp hy with hy | hy
    · rw [← hsame x hx, ← hsame y hy] at h
      exact hr x hx y hy h
    · exact (happart y hy x hx h.symm).symm
  · rcases List.mem_append.mp hy with hy | hy
    · exact happart x hx y hy h
    · rwa [hfix x hx, hfix y hy] at h

end

/-- **Names of labels.**  Renaming the labels of a script one to one does not change its code if
the labels of conditions keep their names to themselves.  Where one of the two scripts is free of
these, the other has to be free of them too, or neither is built. -/
theorem build_renamed_iff {stmts : List Stmt} {r : String → String}
    (hr : ∀ x ∈ labelNames stmts, ∀ y ∈ labelNames stmts, r x = r y → x = y) (start : Nat) :
    ((∀ x ∈ labelNames stmts, x ∈ ownLabels stmts ∨ r x ∈ ownLabels stmts → r x = x) →
      ∀ code, build start (renamed r stmts) = .ok code ↔ build start stmts = .ok code) ∧
    (Free stmts ∨ Free (renamed r stmts) →
      ((∀ code, build start (renamed r stmts) = .ok code ↔ build start stmts = .ok code) ↔
        (Free stmts ∧ Free (renamed r stmts)) ∨
          ∀ code, build start stmts ≠ .ok code ∧ build start (renamed r stmts) ≠ .ok code)) := by
  refine ⟨fun hown => build_renamed hr hown start, fun hone => ⟨fun hsame => ?_, ?_⟩⟩
  · cases hb : build start stmts with
    | error e =>
      refine .inr fun code => ⟨nofun, fun h => ?_⟩
      rw [hsame code, hb] at h
      cases h
    | ok code =>
      have hiff := free_renamed_iff hr hb ((hsame code).mpr hb)
      exact .inl (hone.elim (fun h => ⟨h, hiff.mpr h⟩) fun h => ⟨hiff.mp h, h⟩)
  · rintro (⟨hfree, hfree'⟩ | hnone) code
    · refine build_renamed hr (fun x hx ho => absurd ho ?_) start code
      rintro (ho | ho)
      · exact hfree x hx ho
      · rw [← ownLabels_renamed r] at ho
        exact hfree' (r x) (by rw [labelNames_renamed]; exact List.mem_map_of_mem hx) ho
    · exact ⟨fun h => absurd h (hnone code).2, fun h => absurd h (hnone code).1⟩

/-- `if 1 then end` and a label behind it. -/
def guarded : List Stmt := [.ifThen (.literal ⟨1, .decimal⟩) [], .label "done"]

/-- The label may be called anything but `__end_if_0`. -/
theorem build_renamed_iff_guarded :
    (∃ code, build 0 guarded = .ok code ∧ build 0 (renamed (fun _ => "over") guarded) = .ok code) ∧
    ¬ ∀ code, build 0 (renamed (fun _ => "__end_if_0") guarded) = .ok code ↔
      build 0 guarded = .ok code := by
  have hone (r : String → String) : ∀ x ∈ labelNames guarded, ∀ y ∈ labelNames guarded,
      r x = r y → x = y := by
    have hnames : labelNames guarded = ["done"] := rfl
    rw [hnames]
    simp
  have hfree : Free guarded := by
    unfold Free
    decide
  have hok : (build 0 guarded).isOk = true := by decide +kernel
  cases hb : build 0 guarded with
  | error e =>
    rw [hb] at hok
    cases hok
  | ok code =>
    have hover := ((build_renamed_iff (hone fun _ => "over") 0).2 (.inl hfree)).mpr
      (.inl ⟨hfree, by unfold Free; decide⟩)
    refine ⟨⟨code, rfl, (hover code).mpr hb⟩, fun hsame => ?_⟩
    rw [← hb] at hsame
    rcases ((build_renamed_iff (hone fun _ => "__end_if_0") 0).2 (.inl hfree)).mp hsame with
      ⟨-, hfree'⟩ | hnone
    · exact hfree' "__end_if_0" (by decide) (by decide)
    · exact (hnone code).1 hb

end Script

end MapScript
