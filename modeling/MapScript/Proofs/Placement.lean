import MapScript.Program
import MapScript.Proofs.Linked

/-!
# Instructions in place

`numbered base index code` are the lines of instructions of which the first stands at `base` and
has the number `index`.  Along it offsets and numbers both ascend (`numbered_pairwise`), so that
an offset is found at exactly one line:

    p.indexOf? t = some i ↔ ∃ line, (line, i) ∈ p.lines.zipIdx ∧ line.offset = t   (indexOf?_iff)
-/

namespace MapScript

/-- A line and its number. -/
abbrev Numbered : Type := Line × Nat

/-- The lines of code whose first instruction stands at `base` and has the number `index`. -/
def numbered (base index : Nat) : List Instruction → List Numbered
  | [] => []
  | i :: rest => (⟨base, i⟩, index) :: numbered (base + i.width) (index + 1) rest

theorem numbered_append (base index : Nat) (xs ys : List Instruction) :
    numbered base index (xs ++ ys) =
      numbered base index xs ++ numbered (base + codeWidth xs) (index + xs.length) ys := by
  induction xs generalizing base index with
  | nil => rfl
  | cons i xs ih =>
    simp only [List.cons_append, numbered, ih, codeWidth_cons, List.length_cons]
    congr 3 <;> omega

theorem map_insn_numbered (base index : Nat) (code : List Instruction) :
    (numbered base index code).map (·.1.insn) = code := by
  induction code generalizing base index with
  | nil => rfl
  | cons i code ih => simp [numbered, ih]

theorem length_numbered (base index : Nat) (code : List Instruction) :
    (numbered base index code).length = code.length := by
  rw [← List.length_map, map_insn_numbered]

/-- Lines lie between the start and the end of their code. -/
theorem mem_numbered {base index : Nat} {code : List Instruction} {x : Numbered}
    (h : x ∈ numbered base index code) :
    base ≤ x.1.offset ∧ x.1.offset < base + codeWidth code ∧
      index ≤ x.2 ∧ x.2 < index + code.length := by
  induction code generalizing base index with
  | nil => cases h
  | cons i code ih =>
    have hw := i.width_pos
    rw [numbered] at h
    rw [codeWidth_cons, List.length_cons]
    rcases List.mem_cons.mp h with rfl | h
    · simp only
      omega
    · have := ih h
      omega

/-- `a` stands before `b`. -/
def Before (a b : Numbered) : Prop := a.1.offset < b.1.offset ∧ a.2 < b.2

theorem numbered_pairwise (base index : Nat) (code : List Instruction) :
    (numbered base index code).Pairwise Before := by
  induction code generalizing base index with
  | nil => exact List.Pairwise.nil
  | cons i code ih =>
    refine List.pairwise_cons.mpr ⟨fun x hx => ?_, ih _ _⟩
    have hw := i.width_pos
    have := mem_numbered hx
    show base < x.1.offset ∧ index < x.2
    omega

/-- Lines further down have higher numbers. -/
theorem number_le_of_offset_le {base index : Nat} {code : List Instruction} {x y : Numbered}
    (hx : x ∈ numbered base index code) (hy : y ∈ numbered base index code)
    (h : x.1.offset ≤ y.1.offset) : x.2 ≤ y.2 := by
  have hp := numbered_pairwise base index code
  refine List.Pairwise.forall_of_forall_of_flip
    (R := fun x y : Numbered => x.1.offset ≤ y.1.offset → x.2 ≤ y.2) (fun _ _ _ => Nat.le_refl _)
    (hp.imp fun hb _ => Nat.le_of_lt hb.2) (hp.imp fun hb hle => ?_) hx hy h
  exact absurd hb.1 (Nat.not_lt.mpr hle)

/-! ## Programs -/

namespace Program

theorem zipIdx_place (base index : Nat) (code : List Instruction) :
    (place base code).zipIdx index = numbered base index code := by
  induction code generalizing base index with
  | nil => rfl
  | cons i code ih =>
    rw [numbered, ← ih]
    rfl

theorem zipIdx_lines (start : Nat) (code : List Instruction) :
    (ofInstructions start code).lines.zipIdx = numbered start 0 code := zipIdx_place start 0 code

theorem lines_ofInstructions (start : Nat) (code : List Instruction) :
    (ofInstructions start code).lines = (numbered start 0 code).map Prod.fst := by
  rw [← zipIdx_lines, List.zipIdx_map_fst]

theorem length_lines (start : Nat) (code : List Instruction) :
    (ofInstructions start code).lines.length = code.length := by
  rw [← List.length_zipIdx (i := 0), zipIdx_lines, length_numbered]

theorem insn_mem_of_mem_lines {start : Nat} {code : List Instruction} {l : Line}
    (h : l ∈ (ofInstructions start code).lines) : l.insn ∈ code := by
  rw [lines_ofInstructions] at h
  obtain ⟨x, hx, rfl⟩ := List.mem_map.mp h
  rw [← map_insn_numbered start 0 code]
  exact List.mem_map_of_mem hx

@[simp] theorem stop_ofInstructions (start : Nat) (code : List Instruction) :
    (ofInstructions start code).stop = start + codeWidth code := codeEnd_eq start code

/-- Lines are found by their offsets. -/
theorem indexOf?_iff {start : Nat} {code : List Instruction} {t i : Nat} :
    (ofInstructions start code).indexOf? t = some i ↔
      ∃ line, (line, i) ∈ numbered start 0 code ∧ line.offset = t := by
  rw [← zipIdx_lines, indexOf?, List.findIdx?_eq_some_iff_getElem]
  constructor
  · rintro ⟨hi, ht, -⟩
    exact ⟨_, List.mem_zipIdx_iff_getElem?.mpr (List.getElem?_eq_getElem hi), by simpa using ht⟩
  · rintro ⟨line, hm, rfl⟩
    have hget := List.mem_zipIdx_iff_getElem?.mp hm
    obtain ⟨hi, hl⟩ := List.getElem?_eq_some_iff.mp hget
    refine ⟨hi, by rw [hl]; simp, fun j hj => ?_⟩
    -- an earlier line has a smaller offset
    have hp := numbered_pairwise start 0 code
    rw [← zipIdx_lines, List.pairwise_iff_getElem] at hp
    have := (hp j i (by simpa using by omega) (by simpa using hi) hj).1
    simp only [List.getElem_zipIdx, hl] at this
    simp
    omega

theorem indexOf?_of_mem {start : Nat} {code : List Instruction} {x : Numbered}
    (h : x ∈ numbered start 0 code) :
    (ofInstructions start code).indexOf? x.1.offset = some x.2 :=
  indexOf?_iff.mpr ⟨x.1, h, rfl⟩

theorem mem_gotoTargets {lines : List Line} {t : Nat} :
    t ∈ gotoTargets lines ↔ ∃ l ∈ lines, l.insn.kind = .goto ∧ l.insn.target? = some t := by
  have hfold : ∀ ts : List Nat, t ∈ ts.foldr insertOffset [] ↔ t ∈ ts := by
    intro ts
    induction ts with
    | nil => simp
    | cons x ts ih => rw [List.foldr_cons, mem_insertOffset, ih, List.mem_cons]
  rw [gotoTargets, hfold, List.mem_filterMap]
  constructor
  · rintro ⟨l, hl, h⟩
    split at h
    · next hk => exact ⟨l, hl, hk, h⟩
    · cases h
  · rintro ⟨l, hl, hk, ht⟩
    exact ⟨l, hl, by rw [if_pos hk, ht]⟩

/-- The labelled offsets are the targets of unconditional jumps. -/
theorem isLabelled_iff {start : Nat} {code : List Instruction} {t : Nat} :
    (ofInstructions start code).isLabelled t = true ↔
      ∃ x ∈ numbered start 0 code, x.1.insn.kind = .goto ∧ x.1.insn.target? = some t := by
  rw [isLabelled, List.contains_iff_mem]
  show t ∈ gotoTargets (ofInstructions start code).lines ↔ _
  rw [mem_gotoTargets, lines_ofInstructions]
  simp

end Program

end MapScript
