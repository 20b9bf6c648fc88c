import MapScript.Proofs.Renaming
import MapScript.Proofs.Underflow
import MapScript.Script.Render

/-!
# Code in another place

`moved d` is what becomes of instructions, programs, scripts and errors when code is loaded `d` words
further on and its jumps go there.  Offsets are only ever compared with each other and written into
the names of labels, so that placing, the checks and the walk all commute with moving:

    Program.ofInstructions (start + d) (code.map (moved d)) =
      (Program.ofInstructions start code).moved d                     (Program.ofInstructions_moved)
    Structured.ofInstructions (start + d) (code.map (moved d)) =
      what is recovered from code at start, moved                 (Structured.ofInstructions_relocated)

Failures move along with results: `Moves d f x y` says that `y` is `x` with `f` applied to a result,
and with the target of an error moved.
-/

namespace MapScript

open Script

/-! ## What is moved -/

/-- Adds `d` to the operand of a jump. -/
def Instruction.moved (d : Nat) (i : Instruction) : Instruction :=
  if i.opcode.entry.isJump then
    ⟨i.opcode, i.operands.map fun v => UInt16.ofNat (v.toNat + d)⟩
  else i

def Line.moved (d : Nat) (l : Line) : Line := ⟨l.offset + d, l.insn.moved d⟩

def Program.moved (d : Nat) (p : Program) : Program :=
  ⟨p.lines.map (Line.moved d), p.labelled.map (· + d), p.stop + d⟩

/-- Adds `d` to the target that an error names. -/
def RecoveryError.moved (d : Nat) : RecoveryError → RecoveryError
  | targetNotFound line target => targetNotFound line (target + d)
  | overlappingBranch line target => overlappingBranch line (target + d)
  | backwardBranch line target => backwardBranch line (target + d)
  | e => e

namespace Structured

/-- The offset that a label is named for. -/
def offsetOf? (name : String) : Option Nat :=
  match "label_".toList.isPrefixOf? name.toList with
  | none => none
  | some digits =>
    match Numeral.readDigits 16 (Nat.pow 16 digits.length) 0 digits with
    | .error _ => none
    | .ok offset => if labelAt offset = name then some offset else none

/-- The label `d` further on; other names stay. -/
def movedLabel (d : Nat) (name : String) : String :=
  match offsetOf? name with
  | some offset => labelAt (offset + d)
  | none => name

/-- The same script with other labels; what is left on the stack stays. -/
def moved (d : Nat) (s : Structured) : Structured := ⟨renamed (movedLabel d) s.stmts, s.residual⟩

end Structured

/-! ## Labels -/

namespace Structured

theorem offsetOf?_eq_some_iff {name : String} {offset : Nat} :
    offsetOf? name = some offset ↔ name = labelAt offset := by
  constructor
  · intro h
    unfold offsetOf? at h
    split at h
    · cases h
    · split at h
      · cases h
      · split at h
        · next hname =>
          cases h
          exact hname.symm
        · cases h
  · rintro rfl
    have hdigits : "label_".toList.isPrefixOf? (labelAt offset).toList =
        some (Nat.toDigits 16 offset) := by
      rw [List.isPrefixOf?_eq_some_iff_append_eq, labelAt, String.toList_append, Numeral.hex]
      simp
    have hlt : offset < 16 ^ (Nat.toDigits 16 offset).length :=
      (Nat.length_toDigits_le_iff (by omega) Nat.length_toDigits_pos).mp (Nat.le_refl _)
    have hread : Numeral.readDigits 16 (Nat.pow 16 (Nat.toDigits 16 offset).length) 0
        (Nat.toDigits 16 offset) = .ok offset :=
      Numeral.readDigits_toDigits (by omega) (by omega) hlt
    simp only [offsetOf?, hdigits, hread, if_true]

theorem movedLabel_labelAt (d t : Nat) : movedLabel d (labelAt t) = labelAt (t + d) := by
  simp only [movedLabel, offsetOf?_eq_some_iff.mpr rfl]

end Structured

/-! ## Instructions -/

namespace Instruction

/-- All operands are there, and jumps still fit a word when they are moved. -/
structure Movable (d : Nat) (i : Instruction) : Prop where
  wellFormed : i.wellFormed = true
  fits : ∀ t ∈ i.target?, t + d ≤ 0xFFFF

variable {d : Nat} {i : Instruction}

@[simp] theorem opcode_moved (d : Nat) (i : Instruction) : (i.moved d).opcode = i.opcode := by
  unfold moved
  split <;> rfl

@[simp] theorem kind_moved (d : Nat) (i : Instruction) : (i.moved d).kind = i.kind := by
  rw [kind, opcode_moved, kind]

@[simp] theorem width_moved (d : Nat) (i : Instruction) : (i.moved d).width = i.width := by
  unfold moved
  split
  · unfold width
    cases i.opcode <;> simp
  · rfl

theorem moved_of_not_isJump (h : i.kind.isJump = false) : i.moved d = i := by
  have hj : i.opcode.entry.isJump = false := (Opcode.isJump_eq i.opcode).trans h
  simp [moved, hj]

theorem Movable.target? (h : i.Movable d) : (i.moved d).target? = i.target?.map (· + d) := by
  by_cases hj : i.opcode.entry.isJump = true
  · have hfits := h.fits
    simp only [Instruction.target?, moved, hj, if_true] at hfits ⊢
    cases hv : i.operands with
    | nil => rfl
    | cons v rest =>
      have hv' : v.toNat + d ≤ 0xFFFF := hfits _ (by rw [hv]; rfl)
      simp only [List.map_cons, List.head?_cons, Option.map_some, UInt16.toNat_ofNat']
      congr 1
      omega
  · simp [Instruction.target?, moved, hj]

end Instruction

/-! ## Results -/

/-- The second result is the first one moved. -/
def Moves {α β : Type} (d : Nat) (f : α → β) (x : Except RecoveryError α)
    (y : Except RecoveryError β) : Prop :=
  y = (x.mapError (RecoveryError.moved d)).map f

namespace Moves

variable {α β α' β' : Type} {d : Nat}

theorem ok {f : α → β} {a : α} {b : β} (h : b = f a) : Moves d f (.ok a) (.ok b) :=
  congrArg Except.ok h

theorem error {f : α → β} (e : RecoveryError) : Moves d f (.error e) (.error (e.moved d)) := rfl

theorem bind {f : α → β} {g : α' → β'} {x : Except RecoveryError α} {y : Except RecoveryError β}
    {k : α → Except RecoveryError α'} {k' : β → Except RecoveryError β'} (hx : Moves d f x y)
    (hk : ∀ a, x = .ok a → Moves d g (k a) (k' (f a))) : Moves d g (x >>= k) (y >>= k') := by
  obtain rfl : y = _ := hx
  cases x with
  | error e => exact .error e
  | ok a => exact hk a rfl

end Moves

/-! ## Programs -/

namespace Program

variable {d : Nat}

theorem place_moved (d start : Nat) (code : List Instruction) :
    place (start + d) (code.map (Instruction.moved d)) =
      (place start code).map (Line.moved d) := by
  induction code generalizing start with
  | nil => rfl
  | cons i code ih =>
    have hcons (base : Nat) (j : Instruction) (rest : List Instruction) :
        place base (j :: rest) = ⟨base, j⟩ :: place (base + j.width) rest := rfl
    rw [List.map_cons, hcons, hcons, List.map_cons, ← ih, Instruction.width_moved,
      Nat.add_right_comm]
    rfl

theorem codeEnd_moved (d start : Nat) (code : List Instruction) :
    codeEnd (start + d) (code.map (Instruction.moved d)) = codeEnd start code + d := by
  induction code generalizing start with
  | nil => rfl
  | cons i code ih =>
    rw [List.map_cons, codeEnd, codeEnd, ← ih, Instruction.width_moved, Nat.add_right_comm]

theorem insertOffset_add (d t : Nat) (xs : List Nat) :
    insertOffset (t + d) (xs.map (· + d)) = (insertOffset t xs).map (· + d) := by
  induction xs with
  | nil => rfl
  | cons x xs ih =>
    simp only [List.map_cons, insertOffset, Nat.add_lt_add_iff_right, Nat.add_right_cancel_iff, ih]
    split
    · rfl
    · split <;> rfl

theorem gotoTargets_moved {lines : List Line} (h : ∀ l ∈ lines, l.insn.Movable d) :
    gotoTargets (lines.map (Line.moved d)) = (gotoTargets lines).map (· + d) := by
  have htargets : (lines.map (Line.moved d)).filterMap
      (fun l => if l.insn.kind = .goto then l.insn.target? else none) =
        (lines.filterMap fun l => if l.insn.kind = .goto then l.insn.target? else none).map
          (· + d) := by
    rw [List.filterMap_map, List.map_filterMap]
    refine List.filterMap_congr fun l hl => ?_
    simp only [Function.comp_apply, Line.moved, Instruction.kind_moved, (h l hl).target?]
    split <;> rfl
  have hfold : ∀ ts : List Nat, (ts.map (· + d)).foldr insertOffset [] =
      (ts.foldr insertOffset []).map (· + d) := by
    intro ts
    induction ts with
    | nil => rfl
    | cons t ts ih => rw [List.map_cons, List.foldr_cons, List.foldr_cons, ih, insertOffset_add]
  rw [gotoTargets, htargets, hfold, gotoTargets]

/-- **Placing commutes with moving.** -/
theorem ofInstructions_moved {code : List Instruction} (h : ∀ i ∈ code, i.Movable d)
    (start : Nat) :
    ofInstructions (start + d) (code.map (Instruction.moved d)) =
      (ofInstructions start code).moved d := by
  have hlines : ∀ l ∈ place start code, l.insn.Movable d :=
    fun l hl => h _ (insn_mem_of_mem_lines hl)
  unfold ofInstructions moved
  simp only [place_moved, codeEnd_moved, gotoTargets_moved hlines]

/-! ## Checks -/

theorem indexOf?_moved (p : Program) (t : Nat) : (p.moved d).indexOf? (t + d) = p.indexOf? t := by
  rw [indexOf?, moved, List.findIdx?_map, indexOf?]
  congr 1
  funext l
  simp [Line.moved]

theorem isLabelled_moved (p : Program) (t : Nat) :
    (p.moved d).isLabelled (t + d) = p.isLabelled t := by
  rw [Bool.eq_iff_iff, isLabelled, isLabelled, List.contains_iff_mem, List.contains_iff_mem, moved,
    List.mem_map]
  constructor
  · rintro ⟨t', ht, he⟩
    rwa [← Nat.add_right_cancel he]
  · exact fun ht => ⟨t, ht, rfl⟩

theorem checkJumps_moved (p : Program) {lines : List Line} (h : ∀ l ∈ lines, l.insn.Movable d)
    (n : Nat) :
    Moves d id (p.checkJumps n lines) ((p.moved d).checkJumps n (lines.map (Line.moved d))) := by
  induction lines generalizing n with
  | nil => exact .ok rfl
  | cons l lines ih =>
    obtain ⟨hl, hlines⟩ := List.forall_mem_cons.mp h
    have hstop (t : Nat) : t + d = (p.moved d).stop ↔ t = p.stop := Nat.add_right_cancel_iff
    rw [List.map_cons, checkJumps, checkJumps, Line.moved, hl.target?]
    cases l.insn.target? with
    | none => exact ih hlines (n + 1)
    | some t =>
      simp only [Option.map_some, hstop, indexOf?_moved]
      split
      · exact ih hlines (n + 1)
      · exact .error (.targetNotFound n t)

theorem checkRegions_moved {lines : List Line} (h : ∀ l ∈ lines, l.insn.Movable d) (n : Nat)
    (regions : List Nat) :
    Moves d id (checkRegions n regions lines)
      (checkRegions n (regions.map (· + d)) (lines.map (Line.moved d))) := by
  induction lines generalizing n regions with
  | nil => exact .ok rfl
  | cons l lines ih =>
    obtain ⟨hl, hlines⟩ := List.forall_mem_cons.mp h
    have hopen : (regions.map (· + d)).dropWhile (· ≤ l.offset + d) =
        (regions.dropWhile (· ≤ l.offset)).map (· + d) := by
      rw [List.dropWhile_map]
      congr 2
      funext r
      simp
    rw [List.map_cons, checkRegions, checkRegions, Line.moved]
    simp only [Instruction.kind_moved, hl.target?]
    split
    · cases l.insn.target? with
      | none => exact ih hlines (n + 1) regions
      | some t =>
        simp only [Option.map_some, Nat.add_le_add_iff_right, hopen]
        split
        · exact .error (.backwardBranch n t)
        · cases regions.dropWhile (· ≤ l.offset) with
          | nil => exact ih hlines (n + 1) [t]
          | cons around others =>
            simp only [List.map_cons, Nat.add_lt_add_iff_right]
            split
            · exact .error (.overlappingBranch n t)
            · exact ih hlines (n + 1) (t :: around :: others)
    · exact ih hlines (n + 1) regions

/-- **The checks commute with moving.** -/
theorem build_moved {code : List Instruction} (h : ∀ i ∈ code, i.Movable d) (start : Nat) :
    Moves d (moved d) (build start code)
      (build (start + d) (code.map (Instruction.moved d))) := by
  have hlines : ∀ l ∈ (ofInstructions start code).lines, l.insn.Movable d :=
    fun l hl => h _ (insn_mem_of_mem_lines hl)
  rw [build, build, ofInstructions_moved h]
  exact .bind (checkJumps_moved _ hlines 1) fun _ _ =>
    .bind (checkRegions_moved hlines 1 []) fun _ _ => .ok rfl

end Program

/-! ## The walk -/

namespace Structured

variable {d : Nat}

/-- A numbered line, moved. -/
def movedLine (d : Nat) (x : Numbered) : Numbered := (x.1.moved d, x.2)

theorem renamed_labelsOf (p : Program) (t : Nat) :
    renamed (movedLabel d) (p.labelsOf t) = (p.moved d).labelsOf (t + d) := by
  rw [Program.labelsOf, Program.labelsOf, Program.isLabelled_moved]
  split
  · simp only [renamed, renamedStmt, movedLabel_labelAt]
  · rfl

theorem renamed_grouped (r : String → String) (stmts : List Stmt) :
    renamed r (grouped stmts) = grouped (renamed r stmts) := by
  match stmts with
  | [] | [_] | _ :: _ :: _ => simp only [grouped, renamed, renamedStmt]

/-- Plain statements have no labels. -/
theorem renamed_of_isPlain {r : String → String} {stmts : List Stmt}
    (h : ∀ s ∈ stmts, s.isPlain = true) : renamed r stmts = stmts := by
  induction stmts with
  | nil => rfl
  | cons s stmts ih =>
    obtain ⟨hs, hstmts⟩ := List.forall_mem_cons.mp h
    rw [renamed, ih hstmts]
    cases s <;> first | rfl | cases hs

theorem targetOf_moved {i : Instruction} (h : i.Movable d) (hj : i.kind.isJump = true)
    (index : Nat) : Moves d (· + d) (targetOf i index) (targetOf (i.moved d) index) := by
  obtain ⟨t, ht⟩ := Instruction.exists_target? h.wellFormed hj
  rw [targetOf, targetOf, h.target?, ht]
  exact .ok rfl

theorem resumeAt_moved (p : Program) (index t : Nat) :
    Moves d id (resumeAt p index t) (resumeAt (p.moved d) index (t + d)) := by
  have hstop : t + d = (p.moved d).stop ↔ t = p.stop := Nat.add_right_cancel_iff
  unfold resumeAt
  simp only [hstop, Program.indexOf?_moved]
  split
  · exact .ok rfl
  · cases p.indexOf? t with
    | some i => exact .ok rfl
    | none => exact .error (.targetNotFound (index + 1) t)

/-- The statements of a visit are moved; where it goes on and the state stay. -/
def movedVisit (d : Nat) (x : List Stmt × Resume × State) : List Stmt × Resume × State :=
  (renamed (movedLabel d) x.1, x.2)

/-- The statements of a walk are moved; the state stays. -/
def movedWalk (d : Nat) (x : List Stmt × State) : List Stmt × State :=
  (renamed (movedLabel d) x.1, x.2)

/-- A computation on the stack moves as its result does: an underflow has no target. -/
theorem moves_of_underflows {α : Type} {f : α → α} {x : StackM α} (h : Recovery.Underflows x)
    {s s' : ValueStack} {r : Except RecoveryError α} (hr : x.run s = (r, s'))
    (hf : ∀ a, r = .ok a → f a = a) : Moves d f r r := by
  cases r with
  | ok a => exact .ok (hf a rfl).symm
  | error e =>
    obtain ⟨line, mnemonic, needed, found, rfl⟩ := h s e s' hr
    exact .error (.stackUnderflow line mnemonic needed found)

/-- One line, if the walk of its body commutes with moving. -/
theorem visit_moved (p : Program) {body body' : BodyWalk} {l : Line} (hl : l.insn.Movable d)
    (hb : ∀ t st, Moves d (movedWalk d) (body t st) (body' (t + d) st)) (index : Nat)
    (st : State) :
    Moves d (movedVisit d) (visit p body l index st)
      (visit (p.moved d) body' (l.moved d) index st) := by
  have hgroup (core : List Stmt) :
      grouped ((p.moved d).labelsOf (l.offset + d) ++ renamed (movedLabel d) core) =
        renamed (movedLabel d) (grouped (p.labelsOf l.offset ++ core)) := by
    rw [renamed_grouped, renamed_append, renamed_labelsOf]
  unfold visit
  cases hk : l.insn.kind with
  | goto =>
    have hj : l.insn.kind.isJump = true := by rw [hk]; rfl
    simp only [Line.moved, Instruction.kind_moved, hk]
    refine .bind (targetOf_moved hl hj index) fun t _ => ?_
    refine .bind (resumeAt_moved p index t) fun r _ => .ok ?_
    have hg := hgroup [.goto (labelAt t)]
    simp only [renamed, renamedStmt, movedLabel_labelAt] at hg
    exact congrArg (·, r, _) hg
  | gotoIfFalse =>
    have hj : l.insn.kind.isJump = true := by rw [hk]; rfl
    simp only [Line.moved, Instruction.kind_moved, Instruction.opcode_moved, hk]
    rcases hpop : (ValueStack.pop (index + 1) l.insn.opcode).run st.stack with ⟨popped, stack⟩
    have hpopped : Moves d id popped popped :=
      moves_of_underflows (.pop _ _) hpop fun _ _ => rfl
    refine .bind hpopped fun c _ => ?_
    refine .bind (targetOf_moved hl hj index) fun t _ => ?_
    refine .bind (hb t _) fun x _ => ?_
    refine .bind (resumeAt_moved p index t) fun r _ => .ok ?_
    exact congrArg (·, r, x.2) (hgroup [.ifThen c x.1])
  | _ =>
    have hj : l.insn.kind.isJump = false := by rw [hk]; rfl
    simp only [Line.moved, Instruction.moved_of_not_isJump hj, hk]
    rcases hrec : (Recovery.recover l.insn (index + 1)).run st.stack with ⟨recovered, stack⟩
    have hrecovered : Moves d (renamed (movedLabel d)) recovered recovered := by
      refine moves_of_underflows (.recover _ _) hrec ?_
      rintro ss rfl
      exact renamed_of_isPlain (Recovery.isPlain_of_recovers (Recovery.recovers_of_run hrec))
    exact .bind hrecovered fun ss _ => .ok (congrArg (·, Resume.next, _) (hgroup ss))

/-- A body, whose end is moved along with its lines. -/
theorem walkBody_moved (p : Program) {lines : List Numbered}
    (h : ∀ x ∈ lines, x.1.insn.Movable d) (target : Nat) (st : State) :
    Moves d (movedWalk d) (walkBody p lines target st)
      (walkBody (p.moved d) (lines.map (movedLine d)) (target + d) st) := by
  induction lines generalizing target st with
  | nil => exact .ok rfl
  | cons x lines ih =>
    obtain ⟨hx, hlines⟩ := List.forall_mem_cons.mp h
    rw [List.map_cons, movedLine, walkBody, walkBody]
    simp only [Line.moved, Nat.add_lt_add_iff_right]
    split
    · split
      · exact ih hlines target st
      · refine .bind (visit_moved p hx (ih hlines) x.2 st) fun y _ => ?_
        refine .bind (ih hlines target y.2.2) fun z _ => .ok ?_
        exact congrArg (·, z.2) (renamed_append _ _ _).symm
    · exact .ok rfl

theorem nextUnvisited_moved (visited : List Nat) (index : Nat) (lines : List Numbered) :
    nextUnvisited visited index (lines.map (movedLine d)) =
      (nextUnvisited visited index lines).map fun x =>
        (x.1.moved d, x.2.1, x.2.2.map (movedLine d)) := by
  induction lines with
  | nil => rfl
  | cons x lines ih =>
    rw [List.map_cons, movedLine, nextUnvisited, nextUnvisited, ih]
    split <;> rfl

/-- **The walk commutes with moving.** -/
theorem walk_moved {p : Program} (h : ∀ l ∈ p.lines, l.insn.Movable d) (visits index : Nat)
    (st : State) :
    Moves d (movedWalk d) (walk p visits index st) (walk (p.moved d) visits index st) := by
  induction visits generalizing index st with
  | zero => exact .ok rfl
  | succ visits ih =>
    have hlines : (p.moved d).lines.zipIdx = p.lines.zipIdx.map (movedLine d) := by
      rw [Program.moved, List.zipIdx_map]
      rfl
    rw [walk, walk, hlines, nextUnvisited_moved]
    cases hn : nextUnvisited st.visited index p.lines.zipIdx with
    | none => exact .ok rfl
    | some next =>
      obtain ⟨l, i, rest⟩ := next
      obtain ⟨before, hz, -⟩ := nextUnvisited_spec (x := (l, i)) hn
      have hmem : ∀ x ∈ (l, i) :: rest, x.1.insn.Movable d := fun x hx =>
        h _ (List.fst_mem_of_mem_zipIdx (hz ▸ List.mem_append_right before hx))
      obtain ⟨hl, hrest⟩ := List.forall_mem_cons.mp hmem
      refine .bind (visit_moved p hl (walkBody_moved p hrest) i st) fun y _ => ?_
      simp only [movedVisit]
      cases y.2.1.index? i with
      | none => exact .ok rfl
      | some next =>
        refine .bind (ih next y.2.2) fun z _ => .ok ?_
        exact congrArg (·, z.2) (renamed_append _ _ _).symm

theorem ofProgram_moved {p : Program} (h : ∀ l ∈ p.lines, l.insn.Movable d) :
    Moves d (moved d) (ofProgram p) (ofProgram (p.moved d)) := by
  have hlen : (p.moved d).lines.length = p.lines.length := List.length_map _
  rw [ofProgram, ofProgram, hlen]
  refine .bind (walk_moved h _ _ _) fun x _ => .ok ?_
  have hclosing : (p.moved d).labelsOf (p.stop + d) = renamed (movedLabel d) (p.labelsOf p.stop) :=
    (renamed_labelsOf p p.stop).symm
  exact congrArg (Structured.mk · x.2.stack.reverse)
    ((congrArg (_ ++ ·) hclosing).trans (renamed_append _ _ _).symm)

/-- **Recovery does not depend on where code is loaded.**  Code that stands `d` words further on, and
whose jumps go there, gives the same statements with each label moved by `d`, and leaves the same
values on the stack; or it fails with the same error, whose target, if it names one, is moved. -/
theorem ofInstructions_relocated {code : List Instruction}
    (hw : ∀ i ∈ code, i.wellFormed = true) (hfits : ∀ i ∈ code, ∀ t ∈ i.target?, t + d ≤ 0xFFFF)
    (start : Nat) :
    ofInstructions (start + d) (code.map (Instruction.moved d)) =
      match ofInstructions start code with
      | .ok s => .ok (s.moved d)
      | .error e => .error (e.moved d) := by
  have hcode : ∀ i ∈ code, i.Movable d := fun i hi => ⟨hw i hi, hfits i hi⟩
  have hmoves : Moves d (moved d) (ofInstructions start code)
      (ofInstructions (start + d) (code.map (Instruction.moved d))) := by
    refine .bind (Program.build_moved hcode start) fun p hp => ofProgram_moved fun l hl => ?_
    rw [(Program.build_eq_ok.mp hp).1] at hl
    exact hcode _ (Program.insn_mem_of_mem_lines hl)
  rw [show ofInstructions (start + d) _ = _ from hmoves]
  cases ofInstructions start code <;> rfl

/-- `if 1 then goto 0 end`, `Entity.stop()` and a jump to the end. -/
def looping : List Instruction :=
  (Bytecode.decode [0x110, 1, 0x201, 6, 0x200, 0, 0x30D, 0x200, 9]).toOption.getD []

/-- A jump between the words of an instruction. -/
def stumbling : List Instruction := (Bytecode.decode [0x200, 1]).toOption.getD []

theorem ofInstructions_relocated_looping :
    (∀ i ∈ looping ++ stumbling, i.wellFormed = true ∧ ∀ t ∈ i.target?, t + 0xFF00 ≤ 0xFFFF) ∧
      (ofInstructions 0xFF00 (looping.map (.moved 0xFF00))).toOption.map (fun s => render s.stmts) =
        some ("::label_ff00::\nif 1 then\n  goto label_ff00\nend\n" ++
          "Entity.stop()\ngoto label_ff09\n::label_ff09::") ∧
      ofInstructions 0xFF00 (stumbling.map (.moved 0xFF00)) = .error (.targetNotFound 1 0xFF01) := by
  have hfits : ∀ i ∈ looping ++ stumbling,
      i.wellFormed = true ∧ ∀ t ∈ i.target?, t + 0xFF00 ≤ 0xFFFF := by decide +kernel
  refine ⟨hfits, ?_, ?_⟩
  · have h := ofInstructions_relocated (fun i hi => (hfits i (List.mem_append_left _ hi)).1)
      (fun i hi => (hfits i (List.mem_append_left _ hi)).2) 0
    have hloops : (ofInstructions 0 looping).toOption.map (fun s => render (s.moved 0xFF00).stmts) =
        some ("::label_ff00::\nif 1 then\n  goto label_ff00\nend\n" ++
          "Entity.stop()\ngoto label_ff09\n::label_ff09::") := by decide +kernel
    rw [h, ← hloops]
    cases ofInstructions 0 looping with
    | error e => simp only [Except.toOption, Option.map_none]
    | ok s => simp only [Except.toOption, Option.map_some]
  · have h := ofInstructions_relocated (fun i hi => (hfits i (List.mem_append_right _ hi)).1)
      (fun i hi => (hfits i (List.mem_append_right _ hi)).2) 0
    have hbuild : Program.build 0 stumbling = .error (.targetNotFound 1 1) := by decide +kernel
    have hstumbles : ofInstructions 0 stumbling = .error (.targetNotFound 1 1) := by
      rw [ofInstructions, hbuild]
      rfl
    rw [hstumbles] at h
    exact h

end Structured

end MapScript
