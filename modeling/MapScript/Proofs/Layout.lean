import MapScript.Proofs.Outline

/-!
# Statements as outlines

Statements that have code are laid out as an outline (`exists_outlined`): each of them is a
stretch, a condition with the outline of its body.  `Outlined` collects what the rest of the theory
needs to know of it:

* labels, those of conditions included, stand where stretches start or at the end of the code,
* jumps go to labels,
* stretches are faithful if no statement is idle, and
* the jumps outside all bodies are those of the statements outside all bodies.
-/

namespace MapScript

open Recovery Lowering Linking CodeItem

/-! ## Statements at all depths -/

namespace Script

mutual

/-- A statement and the statements in it. -/
def withinStmt : Stmt → List Stmt
  | .ifThen condition body => .ifThen condition body :: within body
  | .block body => .block body :: within body
  | s => [s]

/-- The statements at all depths. -/
def within : List Stmt → List Stmt
  | [] => []
  | s :: rest => withinStmt s ++ within rest

end

mutual

/-- A statement, or what is left of a block without its bounds. -/
def outerStmt : Stmt → List Stmt
  | .block body => outer body
  | s => [s]

/-- The statements outside all bodies, without blocks. -/
def outer : List Stmt → List Stmt
  | [] => []
  | s :: rest => outerStmt s ++ outer rest

end

/-- No statement is a call that recovery drops. -/
def Busy (stmts : List Stmt) : Prop := ∀ e, .expr e ∈ within stmts → e.isIdle = false

theorem within_append (xs ys : List Stmt) : within (xs ++ ys) = within xs ++ within ys := by
  induction xs with
  | nil => rfl
  | cons s xs ih => simp only [List.cons_append, within, ih, List.append_assoc]

theorem outer_append (xs ys : List Stmt) : outer (xs ++ ys) = outer xs ++ outer ys := by
  induction xs with
  | nil => rfl
  | cons s xs ih => simp only [List.cons_append, outer, ih, List.append_assoc]

mutual

theorem withResets_outerStmt : (s : Stmt) → withResets (outerStmt s) = withReset s
  | .block body => by rw [outerStmt, withReset, withResets_outer body]
  | .expr _ | .ifThen _ _ | .goto _ | .label _ | .assign _ _ | .ret => by
    rw [outerStmt, withResets_singleton]
    rintro _ ⟨⟩

/-- Blocks add nothing to the code. -/
theorem withResets_outer : (stmts : List Stmt) → withResets (outer stmts) = withResets stmts
  | [] => rfl
  | s :: rest => by
    rw [outer, withResets_append, withResets_outerStmt s, withResets_outer rest, withResets]

end

end Script

open Script

theorem Lowering.lowers_outer {n n' : Nat} {stmts : List Stmt} {items : List CodeItem} :
    Lowers n (outer stmts) items n' ↔ Lowers n stmts items n' := by
  rw [Lowers, Lowers, withResets_outer]

/-- The jumps outside all bodies: the offset behind each and the one that it goes to. -/
def Outline.outerGotos : Outline → List (Nat × Nat)
  | nil => []
  | cons s _ rest =>
    match s.finish with
    | .goto t => (s.behind, t) :: rest.outerGotos
    | _ => rest.outerGotos

theorem Outline.outerGotos_append (o o' : Outline) :
    (o.append o').outerGotos = o.outerGotos ++ o'.outerGotos := by
  induction o with
  | nil => rfl
  | cons s body rest _ ih =>
    simp only [append, outerGotos, ih]
    split <;> rfl

/-- The statements, which turn into `items` with condition labels numbered from `n`, are laid out
as `o` when labels stand where `labels` says. -/
structure Outlined (labels : List (String × Nat)) (n : Nat) (stmts : List Stmt)
    (items : List CodeItem) (base index : Nat) (o : Outline) (stop next : Nat) : Prop where
  linked : linkAll labels items = .ok o.code
  laid : o.Laid base index stop next
  marks : ∀ x ∈ labelsAt base items, x.2 = stop ∨ ∃ s ∈ o.stretches, s.offset = x.2
  gotos : ∀ s ∈ o.stretches, ∀ t, s.finish = .goto t → ∃ name, labels.lookup name = some t
  faithful : Busy stmts → ∀ s ∈ o.stretches, s.finish.Faithful s.code
  outermost : ∀ x ∈ o.outerGotos, ∃ before name after c m,
    outer stmts = before ++ .goto name :: after ∧ Lowers n before c m ∧
      labels.lookup name = some x.2 ∧ x.1 = base + totalWidth c + Opcode.goto.width

namespace Outlined

variable {labels : List (String × Nat)} {n m base index stop next mid between : Nat}
  {xs ys : List Stmt} {items items' : List CodeItem} {o o' : Outline}

theorem stop_eq (h : Outlined labels n xs items base index o stop next) :
    stop = base + totalWidth items := by
  rw [totalWidth_of_linkAll h.linked o.wellFormed]
  exact h.laid.end_eq.1

theorem nil : Outlined labels n [] [] base index .nil base index where
  linked := rfl
  laid := .nil
  marks := by simp [labelsAt]
  gotos := by simp [Outline.stretches]
  faithful := by simp [Outline.stretches]
  outermost := by simp [Outline.outerGotos]

theorem append (h : Outlined labels n xs items base index o mid between)
    (hl : Lowers n xs items m) (h' : Outlined labels m ys items' mid between o' stop next) :
    Outlined labels n (xs ++ ys) (items ++ items') base index (o.append o') stop next where
  linked := linkAll_append.mpr ⟨_, _, h.linked, h'.linked, Outline.code_append o o'⟩
  laid := h.laid.append h'.laid
  marks x hx := by
    rw [labelsAt_append, ← h.stop_eq, List.mem_append] at hx
    rw [Outline.stretches_append]
    simp only [List.mem_append]
    rcases hx with hx | hx
    · rcases h.marks x hx with he | ⟨s, hs, he⟩
      · -- a label between the two stands at the start of the second
        rcases h'.laid.start with hst | ⟨s, hs, hst⟩
        · exact .inl (he.trans hst)
        · exact .inr ⟨s, .inr hs, hst.trans he.symm⟩
      · exact .inr ⟨s, .inl hs, he⟩
    · rcases h'.marks x hx with he | ⟨s, hs, he⟩
      · exact .inl he
      · exact .inr ⟨s, .inr hs, he⟩
  gotos s hs := by
    rw [Outline.stretches_append, List.mem_append] at hs
    rcases hs with hs | hs
    · exact h.gotos s hs
    · exact h'.gotos s hs
  faithful hb s hs := by
    rw [Busy, within_append] at hb
    rw [Outline.stretches_append, List.mem_append] at hs
    rcases hs with hs | hs
    · exact h.faithful (fun e he => hb e (List.mem_append_left _ he)) s hs
    · exact h'.faithful (fun e he => hb e (List.mem_append_right _ he)) s hs
  outermost x hx := by
    rw [Outline.outerGotos_append, List.mem_append] at hx
    rcases hx with hx | hx
    · obtain ⟨before, name, after, c, m', ho, hc, hn, he⟩ := h.outermost x hx
      exact ⟨before, name, after ++ outer ys, c, m', by simp [outer_append, ho], hc, hn, he⟩
    · obtain ⟨before, name, after, c, m', ho, hc, hn, he⟩ := h'.outermost x hx
      refine ⟨outer xs ++ before, name, after, items ++ c, m', by simp [outer_append, ho],
        lowers_append.mpr ⟨_, _, _, lowers_outer.mpr hl, hc, rfl⟩, hn, ?_⟩
      rw [he, totalWidth_append, h.stop_eq, Nat.add_assoc base]

theorem label (name : String) :
    Outlined labels n [.label name] [.label name] base index .nil base index where
  linked := rfl
  laid := .nil
  marks x hx := .inl (by rw [List.mem_singleton.mp hx])
  gotos := by simp [Outline.stretches]
  faithful := by simp [Outline.stretches]
  outermost := by simp [Outline.outerGotos]

theorem block (h : Outlined labels n xs items base index o stop next) :
    Outlined labels n [.block xs] items base index o stop next where
  linked := h.linked
  laid := h.laid
  marks := h.marks
  gotos := h.gotos
  faithful hb := h.faithful fun e he => hb e (by simp [within, withinStmt, he])
  outermost x hx := by
    obtain ⟨before, name, after, c, m', ho, hr⟩ := h.outermost x hx
    exact ⟨before, name, after, c, m', by simp [outer, outerStmt, ho], hr⟩

/-- A statement whose code is a phrase, faithful unless the statement is idle. -/
theorem exists_ofIsPhrase {s : Stmt} {idle : Bool} (h : IsPhrase items idle)
    (hi : Busy [s] → idle = false) :
    ∃ o stop next, Outlined labels n [s] items base index o stop next := by
  obtain ⟨init, last, ss, hp, rfl, hf⟩ := h
  refine ⟨.cons (Stretch.place base index hp) .nil .nil, base + codeWidth (init ++ [last]),
    index + (init ++ [last]).length, ?_⟩
  constructor
  · rw [linkAll_ofInstruction, Outline.code_cons, Stretch.code_place]
    simp
  · exact .place hp .nil rfl
  · rw [labelsAt_ofInstruction]
    simp
  · intro s hs t ht
    obtain rfl : s = _ := by simpa [Outline.stretches] using hs
    cases ht
  · intro hb s hs
    obtain rfl : s = _ := by simpa [Outline.stretches] using hs
    rw [Stretch.code_place]
    exact hf (hi hb)
  · intro x hx
    simp [Outline.outerGotos, Stretch.place] at hx

/-- A jump to a label. -/
theorem goto {name : String} {t : Nat} (ht : t < 0x10000) (hl : labels.lookup name = some t) :
    Outlined labels n [.goto name] [.insn .goto [.label name]] base index
      (.cons (Stretch.place base index (phrase_goto t ht)) .nil .nil) (base + Opcode.goto.width)
      (index + 1) := by
  have hw : codeWidth ([] ++ [(⟨.goto, [UInt16.ofNat t]⟩ : Instruction)]) = Opcode.goto.width :=
    rfl
  constructor
  · rw [Outline.code_cons, Stretch.code_place]
    exact linkAll_jump.mpr ⟨t, ht, hl, rfl⟩
  · exact .place _ .nil rfl
  · intro x hx
    cases hx
  · intro s hs t' ht'
    obtain rfl : s = _ := by simpa [Outline.stretches] using hs
    cases ht'
    exact ⟨name, hl⟩
  · intro _ s hs
    obtain rfl : s = _ := by simpa [Outline.stretches] using hs
    rw [Stretch.code_place]
    exact ⟨ht, rfl⟩
  · intro x hx
    obtain rfl : x = _ := by simpa [Outline.outerGotos, Stretch.place] using hx
    exact ⟨[], name, [], [], n, by simp [outer, outerStmt], lowers_nil.mpr ⟨rfl, rfl⟩, hl, rfl⟩

/-- A condition, which jumps to the label behind its body. -/
theorem exists_ifThen {condition : Expr} {c : List CodeItem} (hc : ofExpr condition = ⟨c, none⟩)
    {t : Nat} (ht : t < 0x10000) (hl : labels.lookup (endLabel n) = some t)
    (h : Outlined labels (n + 1) xs items (base + totalWidth (branchItems n c))
      (index + (c.length + 2)) o t next) :
    ∃ o, Outlined labels n [.ifThen condition xs] (branchItems n c ++ items ++
      [.label (endLabel n)]) base index o t next := by
  obtain ⟨load, e, rfl, hp, hf⟩ := exists_phrase_branch hc t ht
  have hlink : linkAll labels (branchItems n (load.map .ofInstruction)) =
      .ok (⟨.reset, []⟩ :: load ++ [⟨.gotoIfFalse, [UInt16.ofNat t]⟩]) := by
    refine linkAll_append.mpr ⟨_, _, ?_, linkAll_jump.mpr ⟨t, ht, hl, rfl⟩, rfl⟩
    exact linkAll_ofInstruction labels (⟨.reset, []⟩ :: load)
  have hw := totalWidth_of_linkAll hlink hp.wellFormed
  have hlabels : labelsAt base (branchItems n (load.map .ofInstruction)) = [] := by
    rw [branchItems, labelsAt_append]
    exact List.append_eq_nil_iff.mpr ⟨labelsAt_ofInstruction base (⟨.reset, []⟩ :: load), rfl⟩
  refine ⟨.cons (Stretch.place base index hp) o .nil, ?_⟩
  constructor
  · refine linkAll_append.mpr ⟨_, _, linkAll_append.mpr ⟨_, _, hlink, h.linked, rfl⟩, rfl, ?_⟩
    rw [Outline.code_cons, Stretch.code_place]
    simp
  · have hin := h.laid
    rw [hw] at hin
    exact .place hp (by simpa using hin) rfl
  · intro x hx
    rw [labelsAt_append, labelsAt_append, hlabels, List.nil_append, totalWidth_append,
      ← Nat.add_assoc, ← h.stop_eq, List.mem_append] at hx
    rcases hx with hx | hx
    · rcases h.marks x hx with he | ⟨s, hs, he⟩
      · exact .inl he
      · exact .inr ⟨s, by simp [Outline.stretches, hs], he⟩
    · exact .inl (by rw [List.mem_singleton.mp hx])
  · intro s hs t' ht'
    rcases List.mem_cons.mp hs with rfl | hs
    · cases ht'
    · exact h.gotos s (by simpa [Outline.stretches] using hs) t' ht'
  · intro hb s hs
    rcases List.mem_cons.mp hs with rfl | hs
    · rw [Stretch.code_place]
      exact hf
    · exact h.faithful (fun e he => hb e (by simp [within, withinStmt, he])) s
        (by simpa [Outline.stretches] using hs)
  · intro x hx
    simp [Outline.outerGotos, Stretch.place] at hx

end Outlined

mutual

theorem exists_outlined_stmt {labels : List (String × Nat)} : (s : Stmt) →
    ∀ (base index : Nat) {n n' : Nat} {items : List CodeItem} {code : List Instruction},
      Lowers n [s] items n' → linkAll labels items = .ok code →
      (∀ x ∈ labelsAt base items, labels.lookup x.1 = some x.2) →
      ∃ o stop next, Outlined labels n [s] items base index o stop next
  | .expr e, base, index, n, n', items, code, hl, hc, ht => by
    obtain ⟨c, he, rfl, rfl⟩ := lowers_expr.mp hl
    exact Outlined.exists_ofIsPhrase (isPhrase_expr he) fun hb =>
      hb e (by simp [within, withinStmt])
  | .ifThen condition body, base, index, n, n', items, code, hl, hc, ht => by
    obtain ⟨c, b, hcond, hb, rfl⟩ := lowers_ifThen.mp hl
    obtain ⟨code1, code2, hc1, -, rfl⟩ := linkAll_append.mp hc
    obtain ⟨code3, code4, hc3, hc4, rfl⟩ := linkAll_append.mp hc1
    obtain ⟨-, code6, -, hc6, rfl⟩ := linkAll_append.mp hc3
    obtain ⟨t, hlt, hlook, rfl⟩ := linkAll_jump.mp hc6
    rw [labelsAt_append, labelsAt_append] at ht
    obtain ⟨o, stop, next, ho⟩ := exists_outlined body _ (index + (c.length + 2)) hb hc4
      fun x hx => ht x (List.mem_append_left _ (List.mem_append_right _ hx))
    -- the label behind the body says where the condition goes
    have hend := ht (endLabel n, stop) (by
      rw [totalWidth_append, ← Nat.add_assoc, ← ho.stop_eq]
      exact List.mem_append_right _ List.mem_cons_self)
    obtain rfl : stop = t := by
      rw [hlook] at hend
      exact (Option.some.inj hend).symm
    obtain ⟨o', ho'⟩ := Outlined.exists_ifThen hcond hlt hlook ho
    exact ⟨o', stop, next, ho'⟩
  | .goto name, base, index, n, n', items, code, hl, hc, ht => by
    obtain ⟨rfl, rfl⟩ := lowers_goto.mp hl
    obtain ⟨t, hlt, hlook, rfl⟩ := linkAll_jump.mp hc
    exact ⟨_, _, _, Outlined.goto hlt hlook⟩
  | .label name, base, index, n, n', items, code, hl, hc, ht => by
    obtain ⟨rfl, rfl⟩ := lowers_label.mp hl
    exact ⟨_, _, _, Outlined.label name⟩
  | .assign target value, base, index, n, n', items, code, hl, hc, ht => by
    obtain ⟨c, he, rfl, rfl⟩ := lowers_assign.mp hl
    exact Outlined.exists_ofIsPhrase (isPhrase_assign he false) fun _ => rfl
  | .ret, base, index, n, n', items, code, hl, hc, ht => by
    obtain ⟨rfl, rfl⟩ := lowers_ret.mp hl
    exact Outlined.exists_ofIsPhrase phrase_ret fun _ => rfl
  | .block body, base, index, n, n', items, code, hl, hc, ht => by
    obtain ⟨o, stop, next, h⟩ := exists_outlined body base index (lowers_block.mp hl) hc ht
    exact ⟨o, stop, next, h.block⟩

/-- **Statements are laid out as outlines.** -/
theorem exists_outlined {labels : List (String × Nat)} : (stmts : List Stmt) →
    ∀ (base index : Nat) {n n' : Nat} {items : List CodeItem} {code : List Instruction},
      Lowers n stmts items n' → linkAll labels items = .ok code →
      (∀ x ∈ labelsAt base items, labels.lookup x.1 = some x.2) →
      ∃ o stop next, Outlined labels n stmts items base index o stop next
  | [], base, index, n, n', items, code, hl, hc, ht => by
    obtain ⟨rfl, rfl⟩ := lowers_nil.mp hl
    exact ⟨_, _, _, Outlined.nil⟩
  | s :: rest, base, index, n, n', items, code, hl, hc, ht => by
    obtain ⟨c1, m, c2, h1, h2, rfl⟩ := lowers_cons.mp hl
    obtain ⟨code1, code2, hc1, hc2, rfl⟩ := linkAll_append.mp hc
    rw [labelsAt_append] at ht
    obtain ⟨o1, mid, between, ho1⟩ := exists_outlined_stmt s base index h1 hc1 fun x hx =>
      ht x (List.mem_append_left _ hx)
    obtain ⟨o2, stop, next, ho2⟩ := exists_outlined rest _ between h2 hc2 fun x hx =>
      ht x (List.mem_append_right _ hx)
    rw [← ho1.stop_eq] at ho2
    exact ⟨_, _, _, ho1.append h1 ho2⟩

end

end MapScript
