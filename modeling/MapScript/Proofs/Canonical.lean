import MapScript.Proofs.Depth
import MapScript.Proofs.Straight

/-!
# Canonical code

Canonical code is a row of groups: a statement that takes no values, or a reset, instructions that
leave values, and a statement that takes them all (`Group`).  It is recovered wherever it stands,
and what is recovered has the same code but for one thing.  A `WAIT` is written
`System.wait(frames)` whether the frames were counted by a `WAIT_FRAMES` ahead of it or not, and a
script always counts them: `withFrames` adds what is missing (`canonical_recovered`).
-/

namespace MapScript

open Recovery Lowering CodeItem

/-! ## Groups -/

namespace Instruction

/-- Whether an instruction leaves a value. -/
def isValue (i : Instruction) : Bool :=
  match i.kind with
  | .push _ | .math _ => true
  | .generic => i.opcode.entry.pushesResult
  | _ => false

/-- Whether an instruction completes a statement. -/
def isStatement (i : Instruction) : Bool :=
  match i.kind with
  | .write | .callFunction | .ret => true
  | .generic => !i.opcode.entry.pushesResult
  | _ => false

end Instruction

/-- The number of values on the stack behind code, if each instruction finds what it takes. -/
def depthThrough? : List Instruction → Nat → Option Nat
  | [], depth => some depth
  | i :: rest, depth =>
    if i.opcode.entry.pops ≤ depth then depthThrough? rest (i.depthAfter depth) else none

/-- A statement that takes no values, or one behind a reset that takes all values loaded since. -/
inductive Group : List Instruction → Prop
  | bare {i : Instruction} (statement : i.isStatement = true) (pops : i.opcode.entry.pops = 0) :
      Group [i]
  | full {values : List Instruction} {last : Instruction}
      (value : ∀ i ∈ values, i.isValue = true)
      (depth : depthThrough? values 0 = some last.opcode.entry.pops)
      (statement : last.isStatement = true) (pops : 0 < last.opcode.entry.pops) :
      Group (⟨.reset, []⟩ :: values ++ [last])

/-- A row of groups. -/
def Canonical (code : List Instruction) : Prop :=
  ∃ groups : List (List Instruction), code = groups.flatten ∧ ∀ g ∈ groups, Group g

/-! ## Values -/

/-- The last values come from the last part of the code. -/
theorem Loads.split {code : List Instruction} {es : List Expr} (h : Loads code es) {m n : Nat}
    (hlen : es.length = m + n) : ∃ c1 c2 xs ys, code = c1 ++ c2 ∧ Loads c1 xs ∧ Loads c2 ys ∧
      xs.length = m ∧ ys.length = n := by
  have hes := h.lowers
  rw [← List.take_append_drop m es, ofExprs_append] at hes
  have hfail := (Fragment.failure_append (ofExprs (es.take m)) (ofExprs (es.drop m))).mp
    (by rw [hes])
  obtain ⟨c1, xs, hxs, hx, e1⟩ := exists_loadsAll (es.take m) hfail.1
  obtain ⟨c2, ys, hys, hy, e2⟩ := exists_loadsAll (es.drop m) hfail.2
  refine ⟨c1, c2, xs, ys, ?_, hx, hy, by rw [hxs]; simp; omega, by rw [hys]; simp; omega⟩
  rw [e1, e2, Fragment.mk_append, ← List.map_append] at hes
  exact List.map_injective_iff.mpr (fun _ _ => ofInstruction_injective) (Fragment.mk.inj hes).1.symm

namespace Instruction

variable {i : Instruction} (hw : i.wellFormed = true)
include hw

theorem eq_mk_of_opcode {op : Opcode} (hop : i.opcode = op) (ha : op.kind.arity = 0) :
    i = ⟨op, []⟩ := by
  have hlen := (wellFormed_iff i).mp hw
  obtain ⟨op', operands⟩ := i
  cases hop
  obtain rfl : operands = [] := List.eq_nil_of_length_eq_zero (hlen.trans ha)
  rfl

theorem eq_mk_of_push {source : Source} (hk : i.kind = .push source) :
    ∃ op v, Opcode.ofKind? (.push source) = some op ∧ i = ⟨op, [v]⟩ := by
  have hop : Opcode.ofKind? (.push source) = some i.opcode := by
    rw [← hk]
    exact Opcode.ofKind?_kind (by rw [← kind, hk]; simp) (by rw [← kind, hk]; simp)
  have hlen : i.operands.length = 1 := ((wellFormed_iff i).mp hw).trans (by rw [hk]; rfl)
  obtain ⟨v, hv⟩ := List.length_eq_one_iff.mp hlen
  exact ⟨i.opcode, v, hop, by rw [← hv]⟩

theorem eq_mk_of_math {m : MathOp} (hk : i.kind = .math m) : i = ⟨.math m, []⟩ :=
  have hop : i.opcode = .math m := Opcode.eq_of_kind (hk.trans (Opcode.kind_math m).symm)
    (by rw [← kind, hk]; simp) (by rw [← kind, hk]; simp)
  eq_mk_of_opcode hw hop (by rw [Opcode.kind_math]; rfl)

theorem eq_mk_of_generic (hk : i.kind = .generic) : i = ⟨i.opcode, []⟩ :=
  eq_mk_of_opcode hw rfl (by rw [← kind, hk]; rfl)

omit hw in
theorem depthAfter_of_isValue (hv : i.isValue = true) (depth : Nat) :
    i.depthAfter depth = depth - i.opcode.entry.pops + 1 := by
  unfold isValue at hv
  have hreset : i.kind ≠ .reset := by
    intro hk
    rw [hk] at hv
    cases hv
  have hresult : i.opcode.entry.pushesResult = true := by
    split at hv
    · next hk => exact (Opcode.effect_of_kind (congrArg Kind.effect? hk)).2
    · next hk => exact (Opcode.effect_of_kind (congrArg Kind.effect? hk)).2
    · exact hv
    · cases hv
  rw [depthAfter, if_neg hreset, if_pos hresult]

/-- An instruction that leaves a value, behind the code of what it takes. -/
theorem exists_loads_of_isValue (hv : i.isValue = true) {code : List Instruction} {es : List Expr}
    (h : Loads code es) (hlen : es.length = i.opcode.entry.pops) :
    ∃ e, Loads (code ++ [i]) [e] := by
  unfold isValue at hv
  split at hv
  · next source hk =>
    have hpops : i.opcode.entry.pops = 0 := (Opcode.effect_of_kind (congrArg Kind.effect? hk)).1
    obtain ⟨op, v, hop, rfl⟩ := eq_mk_of_push hw hk
    obtain rfl : es = [] := List.eq_nil_of_length_eq_zero (hlen.trans hpops)
    obtain rfl : code = [] := h.eq_nil
    exact ⟨_, Loads.load hop v⟩
  · next m hk =>
    rw [(Opcode.effect_of_kind (congrArg Kind.effect? hk)).1] at hlen
    rw [eq_mk_of_math hw hk]
    exact h.mathCall hlen
  · next hk =>
    have hf := Opcode.ofFunction?_of_kind hk
    rw [eq_mk_of_generic hw hk]
    exact exists_loads_function hf hv (Opcode.not_memory_of_ofFunction? hf) h hlen
  · cases hv

end Instruction

/-- Code that leaves values behind code that does. -/
theorem exists_loads_of_depthThrough? {values : List Instruction}
    (hv : ∀ i ∈ values, i.isValue = true) (hw : ∀ i ∈ values, i.wellFormed = true) {n m : Nat}
    (h : depthThrough? values n = some m) {code : List Instruction} {es : List Expr}
    (hl : Loads code es) (hlen : es.length = n) :
    ∃ es', es'.length = m ∧ Loads (code ++ values) es' := by
  induction values generalizing n code es with
  | nil =>
    cases h
    exact ⟨es, hlen, by rwa [List.append_nil]⟩
  | cons i values ih =>
    obtain ⟨hvi, hv⟩ := List.forall_mem_cons.mp hv
    obtain ⟨hwi, hw⟩ := List.forall_mem_cons.mp hw
    rw [depthThrough?] at h
    split at h
    · next hpops =>
      -- the instruction takes the last values, and its own value joins those before them
      obtain ⟨c1, c2, xs, ys, rfl, hx, hy, hxs, hys⟩ :=
        hl.split (m := n - i.opcode.entry.pops) (n := i.opcode.entry.pops) (by omega)
      obtain ⟨e, he⟩ := Instruction.exists_loads_of_isValue hwi hvi hy hys
      have hdepth : (xs ++ [e]).length = i.depthAfter n := by
        rw [Instruction.depthAfter_of_isValue hvi, List.length_append, hxs, List.length_singleton]
      have hrest := ih hv hw h (hx.append he) hdepth
      simpa using hrest
    · cases h

theorem exists_loads_values {values : List Instruction} (hv : ∀ i ∈ values, i.isValue = true)
    (hw : ∀ i ∈ values, i.wellFormed = true) {m : Nat} (h : depthThrough? values 0 = some m) :
    ∃ es, es.length = m ∧ Loads values es :=
  exists_loads_of_depthThrough? hv hw h .nil rfl

theorem depthThrough?_append (xs ys : List Instruction) (n : Nat) :
    depthThrough? (xs ++ ys) n = (depthThrough? xs n).bind (depthThrough? ys) := by
  induction xs generalizing n with
  | nil => rfl
  | cons i xs ih =>
    rw [List.cons_append, depthThrough?, depthThrough?]
    split
    · exact ih _
    · rfl

/-! ## Frames -/

/-- Code behind the instruction `a`, with `WAIT_FRAMES` ahead of every `WAIT` that lacks it. -/
def withFramesBehind (a : Instruction) : List Instruction → List Instruction
  | [] => []
  | i :: rest =>
    if i.opcode = .wait ∧ a.opcode ≠ .waitFrames then
      ⟨.waitFrames, []⟩ :: i :: withFramesBehind i rest
    else i :: withFramesBehind i rest

/-- Code with `WAIT_FRAMES` ahead of every `WAIT` that lacks it. -/
def withFrames (code : List Instruction) : List Instruction := withFramesBehind ⟨.reset, []⟩ code

theorem withFramesBehind_append (a : Instruction) (xs ys : List Instruction) :
    withFramesBehind a (xs ++ ys) =
      withFramesBehind a xs ++ withFramesBehind (xs.getLastD a) ys := by
  induction xs generalizing a with
  | nil => rfl
  | cons x xs ih =>
    rw [List.cons_append, withFramesBehind, withFramesBehind, ih, List.getLastD_cons]
    split <;> rfl

theorem withFramesBehind_of_ne (a : Instruction) {code : List Instruction}
    (h : ∀ i ∈ code, i.opcode ≠ .wait) : withFramesBehind a code = code := by
  induction code generalizing a with
  | nil => rfl
  | cons i code ih =>
    obtain ⟨hi, h⟩ := List.forall_mem_cons.mp h
    rw [withFramesBehind, if_neg fun hw => hi hw.1, ih i h]

/-- Nothing is missing if and only if each `WAIT` has its `WAIT_FRAMES`. -/
theorem withFramesBehind_eq_self_iff (a : Instruction) (code : List Instruction) :
    withFramesBehind a code = code ↔
      (a :: code).IsChain fun a b => b.opcode = .wait → a.opcode = .waitFrames := by
  induction code generalizing a with
  | nil => simp [withFramesBehind]
  | cons i code ih =>
    rw [withFramesBehind, List.isChain_cons_cons, ← ih i]
    by_cases hw : i.opcode = .wait
    · by_cases ha : a.opcode = .waitFrames
      · simp [hw, ha]
      · rw [if_pos ⟨hw, ha⟩]
        refine iff_of_false (fun h => ?_) fun h => ha (h.1 hw)
        rw [← (List.cons.inj h).1] at hw
        exact absurd hw (by decide)
    · simp [hw]

/-! ## Groups are phrases -/

theorem Opcode.exists_call_of_kind {op : Opcode} (h : op.kind = .callFunction) :
    ∃ n, op = .call n := by
  cases op with
  | call n => exact ⟨n, rfl⟩
  | row i =>
    have hi : (table.get i).kind = .callFunction := h
    have hnone : ofKind? .callFunction = none := by decide
    have hfound := row_ofKind? (by rw [hi]; nofun)
    rw [hi, hnone] at hfound
    cases hfound

namespace Instruction

theorem isJump_of_isValue {i : Instruction} (h : i.isValue = true) : i.kind.isJump = false := by
  unfold isValue at h
  split at h
  · next hk => rw [hk]; rfl
  · next hk => rw [hk]; rfl
  · next hk => rw [hk]; rfl
  · cases h

theorem opcode_ne_wait_of_isValue {i : Instruction} (h : i.isValue = true) : i.opcode ≠ .wait := by
  intro hw
  have hk : Opcode.wait.kind = .generic := by decide
  have hr : Opcode.wait.entry.pushesResult = false := by decide
  simp [isValue, kind, hw, hk, hr] at h

/-- The instructions that complete statements. -/
theorem cases_of_isStatement {i : Instruction} (hw : i.wellFormed = true)
    (h : i.isStatement = true) : i = ⟨.ret, []⟩ ∨ i = ⟨.write, []⟩ ∨ (∃ n, i = ⟨.call n, []⟩) ∨
      i = ⟨i.opcode, []⟩ ∧ i.opcode.kind = .generic ∧ i.opcode.entry.pushesResult = false := by
  unfold isStatement at h
  split at h
  · next hk =>
    have hop : i.opcode = .write := Opcode.eq_of_kind (hk.trans Opcode.kind_write.symm)
      (by rw [← kind, hk]; simp) (by rw [← kind, hk]; simp)
    exact .inr (.inl (eq_mk_of_opcode hw hop (by rw [Opcode.kind_write]; rfl)))
  · next hk =>
    obtain ⟨n, hn⟩ := Opcode.exists_call_of_kind hk
    exact .inr (.inr (.inl ⟨n, eq_mk_of_opcode hw hn rfl⟩))
  · next hk =>
    have hop : i.opcode = .ret := Opcode.eq_of_kind (hk.trans Opcode.kind_ret.symm)
      (by rw [← kind, hk]; simp) (by rw [← kind, hk]; simp)
    exact .inl (eq_mk_of_opcode hw hop (by rw [Opcode.kind_ret]; rfl))
  · next hk =>
    exact .inr (.inr (.inr ⟨eq_mk_of_generic hw hk, hk, by simpa using h⟩))
  · cases h

end Instruction

/-- Code that does not end in `WAIT_FRAMES` leaves no number of frames on top. -/
theorem waitFramesArgs?_of_loads {code : List Instruction} {j : Instruction} {e : Expr}
    (h : Loads (code ++ [j]) [e]) (hj : j.opcode ≠ .waitFrames) : waitFramesArgs? e = none := by
  cases he : waitFramesArgs? e with
  | none => rfl
  | some args =>
    exfalso
    have hf : Opcode.ofFunction? "System" "wait_frames" = some .waitFrames := by decide
    have hl := h.lowers_singleton
    rw [eq_call_of_waitFramesArgs? he, ofExpr_function (Expr.path?_path _ _)
      (Opcode.not_memory_of_ofFunction? hf) hf (by decide)] at hl
    unfold applied at hl
    split at hl
    · obtain ⟨c, -, hc⟩ := Fragment.append_emit_eq.mp hl
      rw [List.map_append] at hc
      have hlast := (List.append_inj' hc rfl).2
      exact hj (CodeItem.insn.inj (List.cons.inj hlast).1).1
    · cases congrArg Fragment.failure hl

/-- A `WAIT` whose frames were not counted is written like one whose frames were. -/
theorem Recovery.run_recover_uncounted {i : Instruction} (hw : i.opcode = .wait) {e : Expr}
    (he : waitFramesArgs? e = none) (line : Nat) (s : ValueStack) :
    (recover i line).run (e :: s) = (.ok [.call "System" "wait" [e]], s) := by
  have hk : i.kind = .generic := by rw [Instruction.kind, hw]; decide
  have hpops : Opcode.wait.entry.pops = 1 := by decide
  have hlen : [e].length = Opcode.wait.entry.pops := hpops.symm
  have hget : (get : StackM ValueStack).run (e :: s) = (.ok (e :: s), e :: s) := rfl
  have hwait : (recoverWait line .wait).run (e :: s) = (recoverCall line .wait).run (e :: s) := by
    unfold recoverWait
    rw [run_bind_ok hget, List.head?_cons, Option.bind_some, he]
  unfold recover
  simp only [hk, hw, if_true]
  exact hwait.trans (run_recoverCall hlen line s)

theorem phrased_uncounted {values : List Instruction} {e : Expr} (h : Loads values [e])
    (he : waitFramesArgs? e = none) :
    Phrased (⟨.reset, []⟩ :: values ++ [⟨.wait, []⟩])
      (⟨.reset, []⟩ :: values ++ [⟨.waitFrames, []⟩, ⟨.wait, []⟩]) := by
  have hr : ∀ line, (recover ⟨.wait, []⟩ line).run [e].reverse =
      (.ok [.call "System" "wait" [e]], []) :=
    fun line => run_recover_uncounted rfl he line []
  refine ⟨⟨.reset, []⟩ :: values, ⟨.wait, []⟩, _, rfl,
    Phrase.ofLoads h .wait (by decide) (by decide) hr, fun n => ?_⟩
  have hlow := lowers_wait h.lowers_singleton n
  rwa [List.map_append, List.map_cons]

theorem Group.phrased_bare {i : Instruction} (hw : i.wellFormed = true)
    (hs : i.isStatement = true) (hpops : i.opcode.entry.pops = 0) : Phrased [i] [i] := by
  refine .of_isPhrase ?_
  rcases Instruction.cases_of_isStatement hw hs with rfl | rfl | ⟨n, rfl⟩ | ⟨he, hk, hp⟩
  · exact phrase_ret
  · exact absurd hpops (by decide)
  · cases hpops
  · have hne : i.opcode ≠ .wait := by
      intro hwait
      rw [hwait] at hpops
      exact absurd hpops (by decide)
    have hlen : ([] : List Expr).length = i.opcode.entry.pops := hpops.symm
    have hphrase := isPhrase_generic (Opcode.ofFunction?_of_kind hk) hne hp hk hlen .nil false
    rw [if_neg (by omega)] at hphrase
    rw [he]
    exact hphrase

/-- A statement other than `WAIT` behind the values that it takes. -/
theorem Group.phrased_full {values : List Instruction} {es : List Expr} (hl : Loads values es)
    {last : Instruction} (hw : last.wellFormed = true) (hs : last.isStatement = true)
    (hne : last.opcode ≠ .wait) (hlen : es.length = last.opcode.entry.pops)
    (hpops : 0 < last.opcode.entry.pops) :
    Phrased (⟨.reset, []⟩ :: values ++ [last]) (⟨.reset, []⟩ :: values ++ [last]) := by
  refine .of_isPhrase ?_
  rw [List.map_append, List.map_cons]
  rcases Instruction.cases_of_isStatement hw hs with rfl | rfl | ⟨n, rfl⟩ | ⟨he, hk, hp⟩
  · exact absurd hpops (by decide)
  · match es, hlen with
    | [x, y], _ => exact isPhrase_assign hl.lowers false
  · match es, hlen with
    | [x], _ => exact isPhrase_callFunction (Opcode.call_number n) hl.lowers_singleton false
  · have hphrase := isPhrase_generic (Opcode.ofFunction?_of_kind hk) hne hp hk hlen hl false
    rw [if_pos hpops] at hphrase
    rw [he]
    exact hphrase

/-- A `WAIT` behind the values that it takes, the last of which `j` leaves. -/
theorem Group.phrased_wait {code : List Instruction} {j : Instruction}
    (hv : ∀ i ∈ code ++ [j], i.isValue = true) (hw : ∀ i ∈ code ++ [j], i.wellFormed = true)
    (hd : depthThrough? (code ++ [j]) 0 = some 1) :
    Phrased (⟨.reset, []⟩ :: (code ++ [j]) ++ [⟨.wait, []⟩])
      (⟨.reset, []⟩ :: (code ++ [j]) ++ withFramesBehind j [⟨.wait, []⟩]) := by
  by_cases hj : j.opcode = .waitFrames
  · -- the frames take one value, so there is one ahead of them
    have hpops : Opcode.waitFrames.entry.pops = 1 := by decide
    have hcode : depthThrough? code 0 = some 1 := by
      rw [depthThrough?_append] at hd
      obtain ⟨n, hn, hd⟩ := Option.bind_eq_some_iff.mp hd
      rw [depthThrough?, depthThrough?, Instruction.depthAfter_of_isValue (hv j (by simp)), hj,
        hpops] at hd
      split at hd
      · rw [Option.some.injEq] at hd
        rw [hn]
        congr 1
        omega
      · cases hd
    obtain ⟨es, hlen, hl⟩ := exists_loads_values (fun i hi => hv i (by simp [hi]))
      (fun i hi => hw i (by simp [hi])) hcode
    obtain ⟨e, rfl⟩ := List.length_eq_one_iff.mp hlen
    have hframes : withFramesBehind j [⟨.wait, []⟩] = [⟨.wait, []⟩] := by
      simp [withFramesBehind, hj]
    have hphrase := isPhrase_wait hl.lowers_singleton false
    rw [hframes, Instruction.eq_mk_of_opcode (hw j (by simp)) hj (by decide)]
    refine .of_isPhrase ?_
    simpa [ofInstruction, CodeItem.bare] using hphrase
  · obtain ⟨es, hlen, hl⟩ := exists_loads_values hv hw hd
    obtain ⟨e, rfl⟩ := List.length_eq_one_iff.mp hlen
    have hframes : withFramesBehind j [⟨.wait, []⟩] = [⟨.waitFrames, []⟩, ⟨.wait, []⟩] := by
      simp [withFramesBehind, hj]
    rw [hframes]
    exact phrased_uncounted hl (waitFramesArgs?_of_loads hl hj)

/-- The code of a group comes back, with its frames. -/
theorem Group.phrased {g : List Instruction} (h : Group g) (hw : ∀ i ∈ g, i.wellFormed = true)
    (a : Instruction) : Phrased g (withFramesBehind a g) := by
  cases h with
  | @bare i statement pops =>
    have hne : ∀ j ∈ [i], j.opcode ≠ .wait := by
      intro j hj hwait
      rw [← List.mem_singleton.mp hj, hwait] at pops
      exact absurd pops (by decide)
    rw [withFramesBehind_of_ne a hne]
    exact phrased_bare (hw i List.mem_cons_self) statement pops
  | @full values last value depth statement pops =>
    have hlast : last.wellFormed = true := hw last (by simp)
    have hvalues : ∀ i ∈ values, i.wellFormed = true := fun i hi => hw i (by simp [hi])
    have hinit : ∀ i ∈ (⟨.reset, []⟩ : Instruction) :: values, i.opcode ≠ .wait := by
      refine List.forall_mem_cons.mpr ⟨by decide, fun i hi => ?_⟩
      exact Instruction.opcode_ne_wait_of_isValue (value i hi)
    rw [withFramesBehind_append, withFramesBehind_of_ne a hinit]
    by_cases hwait : last.opcode = .wait
    · have hpops : Opcode.wait.entry.pops = 1 := by decide
      rw [hwait, hpops] at depth
      rw [Instruction.eq_mk_of_opcode hlast hwait (by decide)]
      rcases List.eq_nil_or_concat values with rfl | ⟨code, j, rfl⟩
      · cases depth
      · rw [List.concat_eq_append] at value hvalues depth ⊢
        rw [← List.cons_append, List.getLastD_concat]
        exact phrased_wait value hvalues depth
    · obtain ⟨es, hlen, hl⟩ := exists_loads_values value hvalues depth
      rw [withFramesBehind_of_ne _ (by simpa using hwait)]
      exact phrased_full hl hlast statement hwait hlen pops

theorem straight_of_groups {groups : List (List Instruction)} (h : ∀ g ∈ groups, Group g)
    (hw : ∀ i ∈ groups.flatten, i.wellFormed = true) (a : Instruction) :
    Straight groups.flatten (withFramesBehind a groups.flatten) := by
  induction groups generalizing a with
  | nil => exact .nil
  | cons g groups ih =>
    obtain ⟨hg, h⟩ := List.forall_mem_cons.mp h
    rw [List.flatten_cons, List.forall_mem_append] at hw
    rw [List.flatten_cons, withFramesBehind_append]
    exact .cons (hg.phrased hw.1 a) (ih h hw.2 _)

/-- Canonical code does not start with `WAIT`. -/
theorem Canonical.head_ne_wait {i : Instruction} {code : List Instruction}
    (h : Canonical (i :: code)) : i.opcode ≠ .wait := by
  obtain ⟨groups, he, hg⟩ := h
  match groups with
  | [] => cases he
  | g :: groups =>
    intro hwait
    cases hg g List.mem_cons_self with
    | @bare j _ pops =>
      cases he
      rw [hwait] at pops
      exact absurd pops (by decide)
    | full =>
      cases he
      exact absurd hwait (by decide)

/-- **Canonical code is recovered**, with nothing left on the stack.  What is recovered has the same
code with frames counted for every `WAIT`, hence the same code if and only if each `WAIT` stands
directly behind a `WAIT_FRAMES`. -/
theorem canonical_recovered {code : List Instruction} (hc : Canonical code)
    (hw : ∀ i ∈ code, i.wellFormed = true) (start : Nat) :
    ∃ d, Structured.ofInstructions start code = .ok d ∧ d.residual = [] ∧
      Script.build start d.stmts = .ok (withFrames code) ∧
      (Script.build start d.stmts = .ok code ↔
        code.IsChain fun a b => b.opcode = .wait → a.opcode = .waitFrames) := by
  have hstraight : Straight code (withFrames code) := by
    obtain ⟨groups, rfl, hg⟩ := hc
    exact straight_of_groups hg hw _
  obtain ⟨d, hd, hres, hbuild⟩ := hstraight.recovered start
  refine ⟨d, hd, hres, hbuild, ?_⟩
  rw [hbuild, Except.ok.injEq, withFrames, withFramesBehind_eq_self_iff]
  cases code with
  | nil => simp
  | cons i code =>
    rw [List.isChain_cons_cons]
    exact and_iff_right fun hwait => absurd hwait hc.head_ne_wait

/-- A statement that waits for three frames, with what counts them between the number and `WAIT`. -/
def waiting (count : List Instruction) : List Instruction :=
  ⟨.reset, []⟩ :: (⟨(Opcode.ofKind? (.push .constant)).get (by decide), [3]⟩ :: count) ++
    [⟨.wait, []⟩]

theorem canonical_waiting (count : List Instruction) (hv : ∀ i ∈ count, i.isValue = true)
    (hd : depthThrough? count 1 = some 1) : Canonical (waiting count) := by
  have hpops : Opcode.wait.entry.pops = 1 := by decide
  refine ⟨[waiting count], by simp, fun g hg => ?_⟩
  rw [List.mem_singleton.mp hg]
  refine .full (List.forall_mem_cons.mpr ⟨by decide, hv⟩) ?_ (by decide) (by decide)
  rw [hpops]
  exact hd

theorem canonical_recovered_waiting :
    (∃ d, Structured.ofInstructions 0 (waiting [⟨.waitFrames, []⟩]) = .ok d ∧ d.residual = [] ∧
      Script.build 0 d.stmts = .ok (waiting [⟨.waitFrames, []⟩])) ∧
    ∃ d, Structured.ofInstructions 0 (waiting []) = .ok d ∧ d.residual = [] ∧
      Script.build 0 d.stmts = .ok (waiting [⟨.waitFrames, []⟩]) ∧
      Script.build 0 d.stmts ≠ .ok (waiting []) := by
  constructor
  · obtain ⟨d, hd, hres, -, hiff⟩ := canonical_recovered
      (canonical_waiting [⟨.waitFrames, []⟩] (by decide) (by decide)) (by decide) 0
    exact ⟨d, hd, hres, hiff.mpr (by decide)⟩
  · obtain ⟨d, hd, hres, hbuild, hiff⟩ := canonical_recovered
      (canonical_waiting [] (by decide) (by decide)) (by decide) 0
    exact ⟨d, hd, hres, hbuild, fun h => absurd (hiff.mp h) (by decide)⟩

end MapScript
