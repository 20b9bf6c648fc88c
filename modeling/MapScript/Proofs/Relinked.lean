import MapScript.Proofs.Labels
import MapScript.Proofs.Rebuilt

/-!
# Linking the code of an outline

The labels that recovery makes up are distinct: `label_` and the offset for lines that are jumped
to, `__end_if_` and a number for conditions.  In the code of an outline that is laid out they stand
at the very offsets that they are made from, so that linking gives back the instructions:

    linkAll labels (o.items p n) = .ok o.code   (Outline.Laid.linkAll_items)
-/

namespace MapScript

open Structured Lowering Linking CodeItem

/-! ## Names -/

theorem Structured.labelAt_injective {t t' : Nat} (h : labelAt t = labelAt t') : t = t' :=
  Numeral.hex_injective ((String.append_right_inj _).mp h)

theorem Lowering.endLabel_injective {m n : Nat} (h : endLabel m = endLabel n) : m = n :=
  Numeral.decimal_injective ((String.append_right_inj _).mp h)

theorem labelAt_ne_endLabel (t n : Nat) : labelAt t ≠ endLabel n := by
  intro h
  have := congrArg (fun s => s.toList.head?) h
  simp [labelAt, endLabel, String.toList_append] at this

/-- A label of an offset from `a` up to `b`, or of a condition from `n` up to `m`. -/
def Named (a b n m : Nat) (name : String) : Prop :=
  (∃ t, a ≤ t ∧ t < b ∧ name = labelAt t) ∨ ∃ k, n ≤ k ∧ k < m ∧ name = endLabel k

theorem Named.mono {a b n m a' b' n' m' : Nat} {name : String} (h : Named a b n m name)
    (ha : a' ≤ a) (hb : b ≤ b') (hn : n' ≤ n) (hm : m ≤ m') : Named a' b' n' m' name := by
  rcases h with ⟨t, h1, h2, rfl⟩ | ⟨k, h1, h2, rfl⟩
  · exact .inl ⟨t, by omega, by omega, rfl⟩
  · exact .inr ⟨k, by omega, by omega, rfl⟩

/-- Names from ranges that do not meet are distinct. -/
theorem nodup_append_of_named {a b n m a' b' n' m' : Nat} {xs ys : List String} (hx : xs.Nodup)
    (hy : ys.Nodup) (hxs : ∀ x ∈ xs, Named a b n m x) (hys : ∀ y ∈ ys, Named a' b' n' m' y)
    (hb : b ≤ a') (hm : m ≤ n' ∨ m' ≤ n) : (xs ++ ys).Nodup := by
  rw [List.nodup_append]
  refine ⟨hx, hy, fun x hx' y hy' he => ?_⟩
  rw [he] at hx'
  rcases hxs y hx' with ⟨t, h1, h2, rfl⟩ | ⟨k, h1, h2, rfl⟩
  · rcases hys _ hy' with ⟨t', h3, h4, h⟩ | ⟨k', h3, h4, h⟩
    · have := labelAt_injective h
      omega
    · exact labelAt_ne_endLabel t k' h
  · rcases hys _ hy' with ⟨t', h3, h4, h⟩ | ⟨k', h3, h4, h⟩
    · exact labelAt_ne_endLabel t' k h.symm
    · have := endLabel_injective h
      omega

theorem label?_labelItems (p : Program) (lines : List Numbered) :
    (lines.flatMap fun x => p.labelItems x.1.offset).filterMap label? =
      (lines.filter fun x => p.isLabelled x.1.offset).map fun x => labelAt x.1.offset := by
  induction lines with
  | nil => rfl
  | cons x lines ih =>
    rw [List.flatMap_cons, List.filterMap_append, ih, List.filter_cons, Program.labelItems]
    split <;> rfl

theorem nodup_labelItems (p : Program) {lines : List Numbered} (h : lines.Pairwise Before) :
    ((lines.flatMap fun x => p.labelItems x.1.offset).filterMap label?).Nodup := by
  rw [label?_labelItems, List.Nodup, List.pairwise_map]
  refine (h.filter _).imp fun hb he => ?_
  have := labelAt_injective he
  have := hb.1
  omega

/-- The labels of a stretch behind the one that it starts with. -/
theorem Stretch.label?_core (s : Stretch) (n : Nat) (inner : List CodeItem) :
    (s.core n inner).filterMap label? =
      match s.finish with
      | .branch _ _ => inner.filterMap label? ++ [endLabel n]
      | _ => [] := by
  unfold core
  cases s.finish with
  | stmts ss => exact label?_ofInstruction _
  | goto t => rfl
  | branch c t =>
    simp only [List.filterMap_append, label?_ofInstruction]
    rfl

theorem Stretch.nodup_core {s : Stretch} {n a b m : Nat} {inner : List CodeItem}
    (hn : (inner.filterMap label?).Nodup)
    (hi : ∀ name ∈ inner.filterMap label?, Named a b (n + s.finish.conditions) m name)
    (hm : n + s.finish.conditions ≤ m) : ((s.core n inner).filterMap label?).Nodup ∧
      ∀ name ∈ (s.core n inner).filterMap label?, Named a b n m name := by
  rw [label?_core]
  cases hfin : s.finish with
  | branch c t =>
    rw [hfin] at hi hm
    have hm : n + 1 ≤ m := hm
    have he : ∀ name ∈ [endLabel n], Named b b n (n + 1) name := fun name hname =>
      .inr ⟨n, Nat.le_refl n, Nat.lt_succ_self n, List.mem_singleton.mp hname⟩
    refine ⟨nodup_append_of_named hn (List.pairwise_singleton _ _) hi he (Nat.le_refl b)
      (.inr (Nat.le_refl _)), fun name hname => ?_⟩
    rcases List.mem_append.mp hname with hname | hname
    · exact (hi name hname).mono (Nat.le_refl a) (Nat.le_refl b) (Nat.le_add_right n 1)
        (Nat.le_refl m)
    · exact .inr ⟨n, Nat.le_refl n, hm, List.mem_singleton.mp hname⟩
  | _ => exact ⟨List.nodup_nil, by simp⟩

namespace Outline.Laid

variable {base index stop next : Nat} {o : Outline}

/-- The labels of an outline are distinct. -/
theorem nodup_labels (h : o.Laid base index stop next) (p : Program) (n : Nat) :
    ((o.items p n).filterMap label?).Nodup ∧
      ∀ name ∈ (o.items p n).filterMap label?, Named base stop n (n + o.conditions) name := by
  induction h generalizing n with
  | nil => simp [items]
  | @cons s body rest base index stop next mid between head inner closes later ihb ihr =>
    obtain ⟨hb1, hb2⟩ := ihb (n + s.finish.conditions)
    obtain ⟨hr1, hr2⟩ := ihr (n + s.finish.conditions + body.conditions)
    obtain ⟨hc1, hc2⟩ := Stretch.nodup_core hb1 hb2 (Nat.le_add_right _ _)
    have hmid := inner.le_stop
    have hstop := later.le_stop
    have hl1 : ((s.lines.flatMap fun x => p.labelItems x.1.offset).filterMap label?).Nodup := by
      rw [head]
      exact nodup_labelItems p (numbered_pairwise _ _ _)
    have hl2 : ∀ name ∈ (s.lines.flatMap fun x => p.labelItems x.1.offset).filterMap label?,
        Named base (base + codeWidth s.code) n n name := by
      intro name hname
      rw [label?_labelItems, List.mem_map] at hname
      obtain ⟨x, hx, rfl⟩ := hname
      have hx := List.mem_of_mem_filter hx
      rw [head] at hx
      exact .inl ⟨x.1.offset, (mem_numbered hx).1, (mem_numbered hx).2.1, rfl⟩
    rw [items, Stretch.items, List.filterMap_append, List.filterMap_append, List.append_assoc,
      conditions, ← Nat.add_assoc, ← Nat.add_assoc]
    have hcr := nodup_append_of_named hc1 hr1 hc2 hr2 (Nat.le_refl mid) (.inl (Nat.le_refl _))
    have hcr2 : ∀ name ∈ (s.core n (body.items p (n + s.finish.conditions))).filterMap label? ++
        (rest.items p (n + s.finish.conditions + body.conditions)).filterMap label?,
        Named (base + codeWidth s.code) stop n
          (n + s.finish.conditions + body.conditions + rest.conditions) name := by
      intro name hname
      rcases List.mem_append.mp hname with hname | hname
      · exact (hc2 name hname).mono (by omega) (by omega) (by omega) (by omega)
      · exact (hr2 name hname).mono (by omega) (by omega) (by omega) (by omega)
    refine ⟨nodup_append_of_named hl1 hcr hl2 hcr2 (Nat.le_refl _) (.inl (Nat.le_refl n)),
      fun name hname => ?_⟩
    rcases List.mem_append.mp hname with hname | hname
    · exact (hl2 name hname).mono (by omega) (by omega) (by omega) (by omega)
    · exact (hcr2 name hname).mono (by omega) (by omega) (by omega) (by omega)

end Outline.Laid

/-! ## Offsets -/

theorem totalWidth_labelItems (p : Program) (lines : List Numbered) :
    totalWidth (lines.flatMap fun x => p.labelItems x.1.offset) = 0 := by
  have hnone : (lines.flatMap fun x => p.labelItems x.1.offset).filterMap opcode? =
      ([] : List Instruction).map Instruction.opcode := opcodes_labels p lines
  exact totalWidth_of_opcodes hnone (by simp)

namespace Stretch

variable {p : Program} {s : Stretch} {n base : Nat} {inner : List CodeItem}

/-- The label of the first line. -/
theorem mem_labelsAt_items (hl : p.isLabelled s.offset = true) :
    (labelAt s.offset, base) ∈ labelsAt base (s.items p n inner) := by
  obtain ⟨tail, ht⟩ := s.exists_lines_eq
  have hfirst : p.labelItems s.first.1.offset = [.label (labelAt s.offset)] := if_pos hl
  rw [items, labelsAt_append, ht, List.flatMap_cons, hfirst]
  exact List.mem_append_left _ List.mem_cons_self

/-- The label behind the body of a branch, and those in the body. -/
theorem labelsAt_of_branch {c : Expr} {t : Nat} (hb : s.finish = .branch c t)
    (hf : s.finish.Faithful s.code) (p : Program) (n base : Nat) (inner : List CodeItem) :
    ∃ first, labelsAt base (s.items p n inner) =
      first ++ labelsAt (base + codeWidth s.code) inner ++
        [(endLabel n, base + codeWidth s.code + totalWidth inner)] := by
  obtain ⟨load, -, -, hlast, -⟩ := init_of_branch hb hf
  have hw : totalWidth ((s.init.map (·.1.insn)).map .ofInstruction ++
      [.insn .gotoIfFalse [.label (endLabel n)]]) = codeWidth s.code := by
    refine totalWidth_of_opcodes ?_ s.wellFormed
    rw [List.filterMap_append, opcodes_ofInstruction, code_eq, List.map_append, hlast]
    rfl
  refine ⟨labelsAt base (s.lines.flatMap fun x => p.labelItems x.1.offset) ++
    labelsAt base ((s.init.map (·.1.insn)).map .ofInstruction ++
      [.insn .gotoIfFalse [.label (endLabel n)]]), ?_⟩
  rw [items, core, hb]
  simp only [labelsAt_append _ (_ ++ inner), labelsAt_append _ (_ ++ [CodeItem.insn _ _]),
    labelsAt_append base (List.flatMap _ _), totalWidth_append _ inner, totalWidth_labelItems, hw]
  simp [labelsAt, Nat.add_assoc]

/-- Linking a stretch gives its code, and that of its body. -/
theorem linkAll_items {labels : List (String × Nat)} {body : Outline}
    (hf : s.finish.Faithful s.code) (hh : s.finish.Hollow body)
    (hg : ∀ t, s.finish = .goto t → labels.lookup (labelAt t) = some t)
    (hb : ∀ c t, s.finish = .branch c t → labels.lookup (endLabel n) = some t)
    (hi : linkAll labels inner = .ok body.code) :
    linkAll labels (s.items p n inner) = .ok (s.code ++ body.code) := by
  have hlabels : ∀ lines : List Numbered,
      linkAll labels (lines.flatMap fun x => p.labelItems x.1.offset) = .ok [] := by
    intro lines
    induction lines with
    | nil => rfl
    | cons x lines ih =>
      refine linkAll_append.mpr ⟨[], [], ?_, ih, rfl⟩
      show linkAll labels (p.labelItems x.1.offset) = .ok []
      unfold Program.labelItems
      split <;> rfl
  refine linkAll_append.mpr ⟨[], _, hlabels s.lines, ?_, rfl⟩
  unfold core
  cases hfin : s.finish with
  | stmts ss =>
    rw [hfin] at hh
    obtain rfl : body = .nil := hh
    simpa using linkAll_ofInstruction labels s.code
  | goto t =>
    rw [hfin] at hh hf
    obtain rfl : body = .nil := hh
    rw [hf.2]
    exact linkAll_jump.mpr ⟨t, hf.1, hg t hfin, rfl⟩
  | branch c t =>
    obtain ⟨load, -, -, hlast, ht⟩ := init_of_branch hfin hf
    have hjump : linkAll labels [.insn .gotoIfFalse [.label (endLabel n)]] =
        .ok [⟨.gotoIfFalse, [UInt16.ofNat t]⟩] := linkAll_jump.mpr ⟨t, ht, hb c t hfin, rfl⟩
    refine linkAll_append.mpr ⟨_, [], linkAll_append.mpr ⟨_, _, linkAll_append.mpr
      ⟨_, _, linkAll_ofInstruction labels _, hjump, rfl⟩, hi, rfl⟩, rfl, ?_⟩
    simp [code_eq, hlast]

end Stretch

namespace Outline.Laid

variable {p : Program} {base index stop next n : Nat} {o : Outline}

theorem shaped (h : o.Laid base index stop next) : o.Shaped := by
  induction h with
  | nil => trivial
  | @cons s body rest _ _ _ _ _ _ head inner closes later ihb ihr =>
    refine ⟨?_, ihb, ihr⟩
    cases hf : s.finish with
    | branch c t => trivial
    | _ =>
      rw [hf] at closes
      exact closes

section

variable {s : Stretch} {body rest : Outline} {mid between : Nat}

/-- The items of a stretch and its body take the room of their code. -/
theorem labelsAt_cons (inner : body.Laid (base + codeWidth s.code) index mid between)
    (hs : (Outline.cons s body rest).Shaped) (hf : s.finish.Faithful s.code)
    (hb : ∀ s' ∈ body.stretches, s'.finish.Faithful s'.code) :
    base + codeWidth s.code + totalWidth (body.items p (n + s.finish.conditions)) = mid ∧
    labelsAt base ((Outline.cons s body rest).items p n) =
      labelsAt base (s.items p n (body.items p (n + s.finish.conditions))) ++
      labelsAt mid (rest.items p (n + s.finish.conditions + body.conditions)) := by
  have hbody := opcodes_items (p := p) hs.2.1 hb (n + s.finish.conditions)
  have hw1 := totalWidth_of_opcodes hbody body.wellFormed
  have hw2 : totalWidth (s.items p n (body.items p (n + s.finish.conditions))) =
      codeWidth (s.code ++ body.code) := by
    refine totalWidth_of_opcodes ?_ ?_
    · rw [Stretch.opcodes_items hf n hs.1 hbody, List.map_append]
    · intro i hi
      rcases List.mem_append.mp hi with hi | hi
      · exact s.wellFormed i hi
      · exact body.wellFormed i hi
  have hmid := inner.end_eq.1
  rw [items, labelsAt_append, hw1, hw2, codeWidth_append, ← Nat.add_assoc, ← hmid]
  exact ⟨rfl, rfl⟩

/-- The labels of a body are labels of its stretch. -/
theorem labelsAt_body_subset (closes : s.finish.Closes body mid) (hf : s.finish.Faithful s.code)
    {x : String × Nat}
    (hx : x ∈ labelsAt (base + codeWidth s.code) (body.items p (n + s.finish.conditions))) :
    x ∈ labelsAt base (s.items p n (body.items p (n + s.finish.conditions))) := by
  cases hfin : s.finish with
  | branch c t =>
    obtain ⟨first, hlab⟩ := Stretch.labelsAt_of_branch hfin hf p n base
      (body.items p (n + s.finish.conditions))
    rw [hfin] at hlab hx
    rw [hlab]
    exact List.mem_append_left _ (List.mem_append_right _ hx)
  | _ =>
    rw [hfin] at closes
    obtain rfl : body = .nil := closes
    cases hx

end

/-- Each stretch that is jumped to has its label where it starts. -/
theorem mem_labelsAt (h : o.Laid base index stop next)
    (hf : ∀ s ∈ o.stretches, s.finish.Faithful s.code) {s : Stretch} (hs : s ∈ o.stretches)
    (hl : p.isLabelled s.offset = true) :
    (labelAt s.offset, s.offset) ∈ labelsAt base (o.items p n) := by
  induction h generalizing n with
  | nil => cases hs
  | @cons s' body rest base index stop next mid between head inner closes later ihb ihr =>
    have hshaped := (Laid.cons head inner closes later).shaped
    obtain ⟨hfs, hfb, hfr⟩ := forall_stretches_cons.mp hf
    rw [(labelsAt_cons inner hshaped hfs hfb).2, List.mem_append]
    rw [stretches, List.mem_cons, List.mem_append] at hs
    rcases hs with rfl | hs | hs
    · rw [← Stretch.offset_eq head]
      exact .inl (Stretch.mem_labelsAt_items hl)
    · exact .inl (labelsAt_body_subset closes hfs (ihb hfb hs))
    · exact .inr (ihr hfr hs)

/-- **The code comes back.**  With labels where they were placed, and those of jumps where the jumps
went, linking gives the instructions of the outline. -/
theorem linkAll_items {labels : List (String × Nat)} (h : o.Laid base index stop next)
    (hf : ∀ s ∈ o.stretches, s.finish.Faithful s.code)
    (hl : ∀ x ∈ labelsAt base (o.items p n), labels.lookup x.1 = some x.2)
    (hg : ∀ s ∈ o.stretches, ∀ t, s.finish = .goto t → labels.lookup (labelAt t) = some t) :
    linkAll labels (o.items p n) = .ok o.code := by
  induction h generalizing n with
  | nil => rfl
  | @cons s body rest base index stop next mid between head inner closes later ihb ihr =>
    have hshaped := (Laid.cons head inner closes later).shaped
    obtain ⟨hfs, hfb, hfr⟩ := forall_stretches_cons.mp hf
    obtain ⟨hgs, hgb, hgr⟩ := forall_stretches_cons.mp hg
    obtain ⟨hwidth, hlab⟩ := labelsAt_cons (p := p) (n := n) inner hshaped hfs hfb
    rw [hlab] at hl
    have hrest := ihr hfr (fun x hx => hl x (List.mem_append_right _ hx)) hgr
    have hinner := ihb hfb (fun x hx =>
      hl x (List.mem_append_left _ (labelsAt_body_subset closes hfs hx))) hgb
    have hbranch : ∀ c t, s.finish = .branch c t → labels.lookup (endLabel n) = some t := by
      intro c t hfin
      obtain ⟨first, hlab'⟩ := Stretch.labelsAt_of_branch hfin hfs p n base
        (body.items p (n + s.finish.conditions))
      have hmem := hl (endLabel n, mid) (List.mem_append_left _ (by rw [hlab', hwidth]; simp))
      rw [hfin] at closes
      obtain rfl : t = mid := closes
      exact hmem
    refine linkAll_append.mpr
      ⟨_, _, Stretch.linkAll_items hfs hshaped.1 hgs hbranch hinner, hrest, ?_⟩
    rw [code_cons, List.append_assoc]

end Outline.Laid

end MapScript
