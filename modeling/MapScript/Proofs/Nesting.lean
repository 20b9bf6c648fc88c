import MapScript.Proofs.Layout
import MapScript.Proofs.Regions

/-!
# Outlines are well nested

The conditions of an outline go to where the rest of it starts, so that the regions they skip are
the bodies.  Hence the program of an outline is well nested (`Laid.wellNested`), and it is accepted
(`Program.build_eq_ok_of_wellNested`).
-/

namespace MapScript

namespace Stretch

/-- The condition of a stretch is the one that it ends in. -/
theorem branch?_of_mem {s : Stretch} {x : Numbered} (h : x ∈ s.lines) {t : Nat}
    (hb : x.1.branch? = some t) : x = s.last ∧ ∃ c, s.finish = .branch c t := by
  unfold Line.branch? at hb
  split at hb
  · next hk =>
    obtain ⟨rfl, hf⟩ := target?_of_mem h hb
    refine ⟨rfl, ?_⟩
    obtain ⟨stack, -, he⟩ := s.phrase.closed
    cases hfin : s.finish with
    | stmts ss =>
      rw [hfin] at hf
      cases hf
    | goto t' =>
      rw [hfin] at he
      rw [he.1] at hk
      cases hk
    | branch c t' =>
      rw [hfin] at hf
      cases hf
      exact ⟨c, rfl⟩
  · cases hb

end Stretch

namespace Outline.Laid

variable {base index stop next : Nat} {o : Outline}

theorem le_stop (h : o.Laid base index stop next) : base ≤ stop := by
  have := h.end_eq
  omega

theorem mem_lines (h : o.Laid base index stop next) {x : Numbered} (hx : x ∈ o.lines) :
    base ≤ x.1.offset ∧ x.1.offset < stop ∧ index ≤ x.2 ∧ x.2 < next := by
  have he := h.end_eq
  rw [h.lines_eq] at hx
  have := mem_numbered hx
  omega

/-- Conditions go forward, but not past the end. -/
theorem forward (h : o.Laid base index stop next) {x : Numbered} (hx : x ∈ o.lines) {t : Nat}
    (hb : x.1.branch? = some t) : x.1.offset < t ∧ t ≤ stop := by
  induction h with
  | nil => cases hx
  | @cons s body rest base index stop next mid between head inner closes later ihb ihr =>
    rw [lines_cons, List.mem_append, List.mem_append] at hx
    have := later.le_stop
    rcases hx with hx | hx | hx
    · obtain ⟨rfl, c, hf⟩ := s.branch?_of_mem hx hb
      rw [hf] at closes
      obtain rfl : t = mid := closes
      rw [head] at hx
      have := mem_numbered hx
      have := inner.le_stop
      omega
    · have := ihb hx
      omega
    · exact ihr hx

theorem nested (h : o.Laid base index stop next) :
    o.lines.Pairwise fun x y => x.1.Encloses y.1 := by
  induction h with
  | nil => exact List.Pairwise.nil
  | @cons s body rest base index stop next mid between head inner closes later ihb ihr =>
    rw [lines_cons, List.pairwise_append, List.pairwise_append]
    refine ⟨?_, ⟨ihb, ihr, fun x hx y hy t hb hlt => ?_⟩, fun x hx y hy t hb hlt t' hb' => ?_⟩
    · rw [Stretch.lines, List.pairwise_append]
      have hinit : ∀ x ∈ s.init, ∀ y, x.1.Encloses y := by
        intro x hx y t hb
        have hj := Stretch.not_isJump_of_mem_init hx
        rw [Line.branch?, Instruction.target?_of_not_isJump hj, ite_self] at hb
        cases hb
      exact ⟨List.pairwise_of_forall_mem_list fun x hx y _ => hinit x hx y.1,
        List.pairwise_singleton _ _, fun x hx y _ => hinit x hx y.1⟩
    · -- a condition of the body ends before the rest starts
      have := (inner.forward hx hb).2
      have := (later.mem_lines hy).1
      omega
    · obtain ⟨rfl, c, hf⟩ := s.branch?_of_mem hx hb
      rw [hf] at closes
      obtain rfl : t = mid := closes
      rcases List.mem_append.mp hy with hy | hy
      · exact (inner.forward hy hb').2
      · have := (later.mem_lines hy).1
        omega

/-- Branches go to where stretches start, or to the end. -/
theorem branch (h : o.Laid base index stop next) {s : Stretch} (hs : s ∈ o.stretches) {c : Expr}
    {t : Nat} (hf : s.finish = .branch c t) : t = stop ∨ ∃ s' ∈ o.stretches, s'.offset = t := by
  induction h with
  | nil => cases hs
  | @cons s' body rest base index stop next mid between head inner closes later ihb ihr =>
    have hmid : mid = stop ∨ ∃ s'' ∈ (Outline.cons s' body rest).stretches, s''.offset = mid := by
      rcases later.start with he | ⟨s'', hs'', he⟩
      · exact .inl he
      · exact .inr ⟨s'', by simp [stretches, hs''], he⟩
    rw [stretches, List.mem_cons, List.mem_append] at hs
    rcases hs with rfl | hs | hs
    · rw [hf] at closes
      obtain rfl : t = mid := closes
      exact hmid
    · rcases ihb hs with rfl | ⟨s'', hs'', he⟩
      · exact hmid
      · exact .inr ⟨s'', by simp [stretches, hs''], he⟩
    · rcases ihr hs with rfl | ⟨s'', hs'', he⟩
      · exact .inl rfl
      · exact .inr ⟨s'', by simp [stretches, hs''], he⟩

end Outline.Laid

/-! ## The code of a script -/

/-- The lines of code fall into stretches, and jumps go to where stretches start or to the end. -/
structure Divides (ss : List Stretch) (start : Nat) (code : List Instruction) : Prop where
  lines : numbered start 0 code = ss.flatMap Stretch.lines
  lands : ∀ s ∈ ss, ∀ t, s.finish.target? = some t →
    t = start + codeWidth code ∨ ∃ s' ∈ ss, s'.offset = t

namespace Divides

variable {ss : List Stretch} {start : Nat} {code : List Instruction}

theorem mem_lines (h : Divides ss start code) {x : Numbered} :
    x ∈ numbered start 0 code ↔ ∃ s ∈ ss, x ∈ s.lines := by
  rw [h.lines, List.mem_flatMap]

end Divides

/-- The program of an outline is well nested. -/
theorem Outline.Laid.wellNested {o : Outline} {start stop next : Nat}
    (h : o.Laid start 0 stop next) (hd : Divides o.stretches start o.code) :
    (Program.ofInstructions start o.code).WellNested := by
  constructor
  · rw [Program.lines_ofInstructions]
    intro l hl t ht
    obtain ⟨x, hx, rfl⟩ := List.mem_map.mp hl
    obtain ⟨s, hs, hx⟩ := hd.mem_lines.mp hx
    rw [Program.stop_ofInstructions]
    rcases hd.lands s hs t (s.target?_of_mem hx ht).2 with he | ⟨s', hs', he⟩
    · exact .inl he
    · exact .inr ⟨s'.first.1,
        List.mem_map_of_mem (hd.mem_lines.mpr ⟨s', hs', s'.first_mem⟩), he⟩
  · rw [Program.lines_ofInstructions, ← h.lines_eq]
    intro l hl t ht
    obtain ⟨x, hx, rfl⟩ := List.mem_map.mp hl
    exact (h.forward hx ht).1
  · rw [Program.lines_ofInstructions, ← h.lines_eq, List.pairwise_map]
    exact h.nested

namespace Outlined

open Script Linking

variable {stmts : List Stmt} {items : List CodeItem} {start n : Nat}
  {labels : List (String × Nat)} {o : Outline} {stop next : Nat}

/-- The stretches of an outline divide its code if labels stand where they were placed. -/
theorem divides (h : Outlined labels n stmts items start 0 o stop next)
    (hl : ∀ name t, labels.lookup name = some t → ∃ x ∈ labelsAt start items, x.2 = t) :
    Divides o.stretches start o.code where
  lines := h.laid.lines_eq.symm
  lands s hs t ht := by
    rw [← h.laid.end_eq.1]
    cases hf : s.finish with
    | stmts ss =>
      rw [hf] at ht
      cases ht
    | goto t' =>
      rw [hf] at ht
      cases ht
      obtain ⟨name, hn⟩ := h.gotos s hs t hf
      obtain ⟨x, hx, rfl⟩ := hl name t hn
      exact h.marks x hx
    | branch c t' =>
      rw [hf] at ht
      cases ht
      exact h.laid.branch hs hf

end Outlined

open Script Linking Lowering in
/-- A script that is built has an outline, which divides its code. -/
theorem exists_outlined_of_build {start : Nat} {stmts : List Stmt} {code : List Instruction}
    (h : build start stmts = .ok code) : ∃ items n labels o stop next, Lowers 0 stmts items n ∧
      labelTable start items = .ok labels ∧ Outlined labels 0 stmts items start 0 o stop next ∧
      o.code = code ∧ Divides o.stretches start code := by
  obtain ⟨items, n, labels, hlow, htab, hlink⟩ := build_eq_ok.mp h
  obtain ⟨rfl, hnodup⟩ := labelTable_eq_ok.mp htab
  obtain ⟨o, stop, next, ho⟩ := exists_outlined stmts start 0 hlow hlink fun x hx =>
    lookup_of_mem hnodup (List.mem_reverse.mpr hx)
  have hcode := ho.linked
  rw [hlink] at hcode
  cases hcode
  refine ⟨items, n, _, o, stop, next, hlow, htab, ho, rfl, ho.divides fun name t hn => ?_⟩
  exact ⟨(name, t), List.mem_reverse.mp (mem_of_lookup hn), rfl⟩

end MapScript
