import MapScript.Proofs.Layout
import Mathlib.Data.List.Nodup

/-!
# The labels of scripts

Code has two kinds of labels, which share one table: those of the script, and those that its
conditions jump to.  `Accounted` says that these are all, each as often as it stands in the script.
So a script that is built has no label with the name of a condition's own, though a jump may go to
one (`not_mem_ownLabels_of_build`, `mem_labels_of_build`).
-/

namespace MapScript

open Lowering Linking CodeItem

/-! ## Labels of code -/

def CodeItem.label? : CodeItem → Option String
  | label name => some name
  | insn _ _ => none

theorem Linking.map_fst_labelsAt (base : Nat) (items : List CodeItem) :
    (labelsAt base items).map Prod.fst = items.filterMap label? := by
  induction items generalizing base with
  | nil => rfl
  | cons item items ih =>
    cases item with
    | label name =>
      rw [labelsAt, List.map_cons, ih]
      rfl
    | insn opcode operands =>
      rw [labelsAt, ih]
      rfl

theorem label?_ofInstruction (code : List Instruction) :
    (code.map .ofInstruction).filterMap label? = [] := by
  induction code with
  | nil => rfl
  | cons i code ih => exact ih

def Operand.label? : Operand → Option String
  | value _ => none
  | label name => some name

/-- The name of a label, or those that the operands go to. -/
def CodeItem.names : CodeItem → List String
  | insn _ operands => operands.filterMap Operand.label?
  | label name => [name]

theorem names_ofInstruction (code : List Instruction) :
    (code.map ofInstruction).flatMap names = [] := by
  rw [List.flatMap_eq_nil_iff]
  refine List.forall_mem_map.mpr fun i _ => ?_
  simp [ofInstruction, names, Operand.label?]

namespace Linking

/-- Linked code only goes to labels in the table. -/
theorem mem_of_linkOperands {table : List (String × Nat)} {operands : List Operand}
    {words : List UInt16} (h : operands.mapM (linkOperand table) = .ok words) :
    ∀ x ∈ operands.filterMap Operand.label?, x ∈ table.map Prod.fst := by
  induction operands generalizing words with
  | nil => simp
  | cons o operands ih =>
    rw [List.mapM_cons] at h
    obtain ⟨w, hw, h⟩ := bind_eq_ok.mp h
    obtain ⟨ws, hws, -⟩ := bind_eq_ok.mp h
    cases o with
    | value v => exact ih hws
    | label name =>
      obtain ⟨offset, -, hlook, -⟩ := linkOperand_label.mp hw
      exact List.forall_mem_cons.mpr ⟨List.mem_map_of_mem (mem_of_lookup hlook), ih hws⟩

theorem mem_of_linkAll {table : List (String × Nat)} {items : List CodeItem}
    {code : List Instruction} (h : linkAll table items = .ok code) :
    ∀ x ∈ items.flatMap names, x ∈ items.filterMap label? ∨ x ∈ table.map Prod.fst := by
  induction items generalizing code with
  | nil => simp
  | cons item items ih =>
    cases item with
    | label name =>
      intro x hx
      rcases List.mem_cons.mp hx with rfl | hx
      · exact .inl List.mem_cons_self
      · exact (ih h x hx).imp_left (List.mem_cons_of_mem _)
    | insn opcode operands =>
      obtain ⟨words, more, hw, hm, -⟩ := linkAll_insn.mp h
      intro x hx
      rcases List.mem_append.mp hx with hx | hx
      · exact .inr (mem_of_linkOperands hw x hx)
      · exact ih hm x hx

end Linking

/-! ## Labels of scripts -/

namespace Stmt

/-- The label that a statement is or goes to. -/
def labelName? : Stmt → Option String
  | goto name | label name => some name
  | _ => none

def label? : Stmt → Option String
  | label name => some name
  | _ => none

def isCondition : Stmt → Bool
  | ifThen _ _ => true
  | _ => false

end Stmt

namespace Script

/-- The names of labels, both where they stand and where they are gone to. -/
def labelNames (stmts : List Stmt) : List String := (within stmts).filterMap Stmt.labelName?

/-- The labels that stand in a script. -/
def labels (stmts : List Stmt) : List String := (within stmts).filterMap Stmt.label?

def conditions (stmts : List Stmt) : Nat := (within stmts).countP Stmt.isCondition

/-- The labels that conditions jump to, numbered from `n`. -/
def ownLabelsFrom (n : Nat) (stmts : List Stmt) : List String :=
  (List.range' n (conditions stmts)).map endLabel

/-- The labels that conditions jump to. -/
def ownLabels (stmts : List Stmt) : List String := ownLabelsFrom 0 stmts

/-- The script has no label with the name of a condition's own. -/
def Free (stmts : List Stmt) : Prop := ∀ x ∈ labelNames stmts, x ∉ ownLabels stmts

section

variable (s : Stmt) (body rest : List Stmt) (condition : Expr) (n : Nat)

theorem within_cons : within (s :: rest) = within [s] ++ within rest := by
  simp [within]

theorem within_ifThen :
    within [.ifThen condition body] = .ifThen condition body :: within body := by
  simp [within, withinStmt]

theorem within_block : within [.block body] = .block body :: within body := by
  simp [within, withinStmt]

theorem labelNames_cons : labelNames (s :: rest) = labelNames [s] ++ labelNames rest := by
  rw [labelNames, within_cons, List.filterMap_append]
  rfl

theorem labelNames_ifThen : labelNames [.ifThen condition body] = labelNames body := by
  rw [labelNames, within_ifThen]
  rfl

theorem labelNames_block : labelNames [.block body] = labelNames body := by
  rw [labelNames, within_block]
  rfl

theorem labels_cons : labels (s :: rest) = labels [s] ++ labels rest := by
  rw [labels, within_cons, List.filterMap_append]
  rfl

theorem labels_ifThen : labels [.ifThen condition body] = labels body := by
  rw [labels, within_ifThen]
  rfl

theorem labels_block : labels [.block body] = labels body := by
  rw [labels, within_block]
  rfl

theorem conditions_cons : conditions (s :: rest) = conditions [s] + conditions rest := by
  rw [conditions, within_cons, List.countP_append]
  rfl

theorem conditions_ifThen : conditions [.ifThen condition body] = conditions body + 1 := by
  rw [conditions, within_ifThen, List.countP_cons]
  rfl

theorem conditions_block : conditions [.block body] = conditions body := by
  rw [conditions, within_block, List.countP_cons]
  rfl

theorem ownLabelsFrom_cons : ownLabelsFrom n (s :: rest) =
    ownLabelsFrom n [s] ++ ownLabelsFrom (n + conditions [s]) rest := by
  rw [ownLabelsFrom, conditions_cons, ← List.range'_append_1, List.map_append]
  rfl

theorem ownLabelsFrom_ifThen : ownLabelsFrom n [.ifThen condition body] =
    endLabel n :: ownLabelsFrom (n + 1) body := by
  rw [ownLabelsFrom, conditions_ifThen, List.range'_succ, List.map_cons]
  rfl

theorem ownLabelsFrom_block : ownLabelsFrom n [.block body] = ownLabelsFrom n body := by
  rw [ownLabelsFrom, conditions_block]
  rfl

end

theorem mem_labels_iff {stmts : List Stmt} {x : String} :
    x ∈ labels stmts ↔ .label x ∈ within stmts := by
  rw [labels, List.mem_filterMap]
  constructor
  · rintro ⟨s, hs, hx⟩
    cases s with
    | label name =>
      cases hx
      exact hs
    | _ => cases hx
  · intro h
    exact ⟨_, h, rfl⟩

theorem mem_labelNames_of_mem_labels {stmts : List Stmt} {x : String} (h : x ∈ labels stmts) :
    x ∈ labelNames stmts :=
  List.mem_filterMap.mpr ⟨_, mem_labels_iff.mp h, rfl⟩

/-! ## The code of a script has its labels -/

/-- The code of statements has the labels of the statements and those of its conditions. -/
structure Accounted (n : Nat) (stmts : List Stmt) (items : List CodeItem) (n' : Nat) : Prop where
  next : n' = n + conditions stmts
  labels : (items.filterMap label?).Perm (labels stmts ++ ownLabelsFrom n stmts)
  names : ∀ x, x ∈ items.flatMap names ↔ x ∈ labelNames stmts ∨ x ∈ ownLabelsFrom n stmts

namespace Accounted

variable {n n' m : Nat} {s : Stmt} {body rest : List Stmt} {items c1 c2 : List CodeItem}

theorem nil : Accounted n [] [] n where
  next := rfl
  labels := .refl _
  names x := by simp [labelNames, within, ownLabelsFrom, conditions]

theorem cons (h1 : Accounted n [s] c1 m) (h2 : Accounted m rest c2 n') :
    Accounted n (s :: rest) (c1 ++ c2) n' where
  next := by
    rw [conditions_cons, h2.next, h1.next, Nat.add_assoc]
  labels := by
    rw [List.filterMap_append, labels_cons s rest, ownLabelsFrom_cons s rest, ← h1.next]
    refine (h1.labels.append h2.labels).trans ?_
    simp only [List.append_assoc]
    exact (List.perm_append_comm_assoc _ _ _).append_left _
  names x := by
    rw [List.flatMap_append, List.mem_append, h1.names, h2.names, labelNames_cons s rest,
      ownLabelsFrom_cons s rest, ← h1.next, List.mem_append, List.mem_append]
    exact or_or_or_comm

/-- A statement whose code is a phrase has no labels. -/
theorem ofIsPhrase {idle : Bool} (h : IsPhrase items idle) (hw : within [s] = [s])
    (hn : s.labelName? = none) (hl : s.label? = none) (hc : s.isCondition = false) :
    Accounted n [s] items n := by
  obtain ⟨init, last, -, -, rfl, -⟩ := h
  constructor
  · simp [conditions, hw, hc]
  · rw [label?_ofInstruction]
    simp [Script.labels, ownLabelsFrom, conditions, hw, hl, hc]
  · rw [names_ofInstruction]
    simp [labelNames, ownLabelsFrom, conditions, hw, hn, hc]

theorem goto (name : String) : Accounted n [.goto name] [.insn .goto [.label name]] n where
  next := rfl
  labels := .refl _
  names x := by
    simp [labelNames, within, withinStmt, Stmt.labelName?, ownLabelsFrom, conditions,
      Stmt.isCondition, CodeItem.names, Operand.label?]

theorem label (name : String) : Accounted n [.label name] [.label name] n where
  next := rfl
  labels := .refl _
  names x := by
    simp [labelNames, within, withinStmt, Stmt.labelName?, ownLabelsFrom, conditions,
      Stmt.isCondition, CodeItem.names]

theorem block (h : Accounted n body items n') : Accounted n [.block body] items n' where
  next := by
    rw [conditions_block]
    exact h.next
  labels := by
    rw [labels_block, ownLabelsFrom_block]
    exact h.labels
  names x := by
    rw [labelNames_block, ownLabelsFrom_block]
    exact h.names x

theorem ifThen {condition : Expr} {load : List Instruction}
    (h : Accounted (n + 1) body items n') : Accounted n [.ifThen condition body]
      (branchItems n (load.map .ofInstruction) ++ items ++ [.label (endLabel n)]) n' where
  next := by
    rw [conditions_ifThen, h.next]
    omega
  labels := by
    have hbranch : (branchItems n (load.map .ofInstruction)).filterMap CodeItem.label? = [] := by
      rw [branchItems, List.filterMap_append]
      exact List.append_eq_nil_iff.mpr ⟨label?_ofInstruction (⟨.reset, []⟩ :: load), rfl⟩
    rw [List.filterMap_append, List.filterMap_append, hbranch, labels_ifThen,
      ownLabelsFrom_ifThen]
    refine (h.labels.append_right [endLabel n]).trans ?_
    rw [List.append_assoc]
    exact (List.perm_append_singleton _ _).append_left _
  names x := by
    have hbranch : (branchItems n (load.map .ofInstruction)).flatMap CodeItem.names =
        [endLabel n] := by
      rw [branchItems, List.flatMap_append]
      exact congrArg (· ++ [endLabel n]) (names_ofInstruction (⟨.reset, []⟩ :: load))
    rw [List.flatMap_append, List.flatMap_append, hbranch, labelNames_ifThen,
      ownLabelsFrom_ifThen]
    simp only [List.mem_append, h.names, List.mem_cons, List.not_mem_nil, or_false,
      List.flatMap_cons, List.flatMap_nil, CodeItem.names, List.append_nil]
    tauto

end Accounted

mutual

theorem accounted_stmt : (s : Stmt) → {n n' : Nat} → {items : List CodeItem} →
    Lowers n [s] items n' → Accounted n [s] items n'
  | .expr e => fun h => by
    obtain ⟨c, he, rfl, rfl⟩ := lowers_expr.mp h
    exact .ofIsPhrase (isPhrase_expr he) rfl rfl rfl rfl
  | .ifThen condition body => fun h => by
    obtain ⟨c, b, hc, hb, rfl⟩ := lowers_ifThen.mp h
    obtain ⟨load, -, -, hload⟩ := exists_loads condition (by rw [hc])
    rw [hload] at hc
    cases hc
    exact (accounted body hb).ifThen
  | .goto name => fun h => by
    obtain ⟨rfl, rfl⟩ := lowers_goto.mp h
    exact .goto name
  | .label name => fun h => by
    obtain ⟨rfl, rfl⟩ := lowers_label.mp h
    exact .label name
  | .assign target value => fun h => by
    obtain ⟨c, he, rfl, rfl⟩ := lowers_assign.mp h
    exact .ofIsPhrase (isPhrase_assign he false) rfl rfl rfl rfl
  | .ret => fun h => by
    obtain ⟨rfl, rfl⟩ := lowers_ret.mp h
    exact .ofIsPhrase phrase_ret rfl rfl rfl rfl
  | .block body => fun h => (accounted body (lowers_block.mp h)).block

/-- **The labels of code are accounted for.** -/
theorem accounted : (stmts : List Stmt) → {n n' : Nat} → {items : List CodeItem} →
    Lowers n stmts items n' → Accounted n stmts items n'
  | [] => fun h => by
    obtain ⟨rfl, rfl⟩ := lowers_nil.mp h
    exact .nil
  | s :: rest => fun h => by
    obtain ⟨c1, m, c2, h1, h2, rfl⟩ := lowers_cons.mp h
    exact (accounted_stmt s h1).cons (accounted rest h2)

end

/-! ## Built scripts -/

section

variable {start : Nat} {stmts : List Stmt} {code : List Instruction}

/-- In a script that is built no label has the name of a condition's own, ... -/
theorem not_mem_ownLabels_of_build (h : build start stmts = .ok code) {x : String}
    (hx : x ∈ labels stmts) : x ∉ ownLabels stmts := by
  obtain ⟨items, n, table, hl, ht, -⟩ := build_eq_ok.mp h
  obtain ⟨rfl, hn⟩ := labelTable_eq_ok.mp ht
  rw [List.map_reverse, List.nodup_reverse, map_fst_labelsAt,
    (accounted stmts hl).labels.nodup_iff, List.nodup_append] at hn
  exact fun hown => hn.2.2 x hx x hown rfl

/-- ... but a jump may go to one. -/
theorem mem_labels_of_build (h : build start stmts = .ok code) {x : String}
    (hx : x ∈ labelNames stmts) : x ∈ labels stmts ∨ x ∈ ownLabels stmts := by
  obtain ⟨items, n, table, hl, ht, hc⟩ := build_eq_ok.mp h
  obtain ⟨rfl, -⟩ := labelTable_eq_ok.mp ht
  have hname : x ∈ items.flatMap names := ((accounted stmts hl).names x).mpr (.inl hx)
  have hmem : x ∈ items.filterMap CodeItem.label? := by
    rcases mem_of_linkAll hc x hname with hm | hm
    · exact hm
    · rwa [List.map_reverse, List.mem_reverse, map_fst_labelsAt] at hm
  exact List.mem_append.mp ((accounted stmts hl).labels.mem_iff.mp hmem)

end

end Script

end MapScript
