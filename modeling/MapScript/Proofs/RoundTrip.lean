import Mathlib.Data.List.Nodup
import MapScript.Proofs.Relinked

/-!
# Code comes back from its script

If the jumps of a script outside all bodies go back, or on to the next instruction, then the walk
over its code takes the stretches of its outline one after the other (`Laid.walk_eq`), and the
statements that it gives are built into the same code.
-/

namespace MapScript

open Structured Lowering Linking CodeItem Script

namespace Outline.Laid

variable {p : Program} {base index stop next : Nat} {o : Outline}

/-! ## The walk along an outline -/

/-- The body of a stretch, if its walk stops where the branch goes. -/
theorem inner_eq {s : Stretch} {body : Outline} {mid : Nat} (closes : s.finish.Closes body mid)
    {walk : BodyWalk} {visited : List Nat} (hw : walk mid ⟨visited, []⟩ =
      .ok (body.stmts p ++ [], ⟨visitsOf body.lines ++ visited, []⟩)) :
    s.finish.Inner walk visited (body.stmts p) (visitsOf body.lines ++ visited) := by
  rw [List.append_nil] at hw
  cases hf : s.finish with
  | branch c t =>
    rw [hf] at closes
    obtain rfl : t = mid := closes
    exact hw
  | _ =>
    rw [hf] at closes
    obtain rfl : body = .nil := closes
    exact ⟨rfl, rfl⟩

theorem walkBody_of_le {rest : List Numbered} {target : Nat} (h : ∀ x ∈ rest, target ≤ x.1.offset)
    (st : State) : walkBody p rest target st = .ok ([], st) := by
  cases rest with
  | nil => rfl
  | cons x rest => exact walkBody_cons_of_le (h x List.mem_cons_self)

/-- Lines that are numbered later have not been visited. -/
theorem not_mem_visitsOf (h : o.Laid base index stop next) {lines : List Numbered}
    (hl : ∀ x ∈ lines, x.2 < index) {visited : List Nat} {x : Numbered} (hx : x ∈ o.lines)
    (hv : x.2 ∉ visited) : x.2 ∉ visitsOf lines ++ visited := by
  intro hm
  rcases List.mem_append.mp hm with hm | hm
  · obtain ⟨y, hy, he⟩ := mem_visitsOf.mp hm
    have := hl y hy
    have := (h.mem_lines hx).2.2.1
    omega
  · exact hv hm

section

variable {s : Stretch} {body rest : Outline} {mid between : Nat}
  (head : s.lines = numbered base index s.code)
  (inner : body.Laid (base + codeWidth s.code) (index + s.code.length) mid between)
  (later : rest.Laid mid between stop next)
include head inner

theorem mem_head {x : Numbered} (hx : x ∈ s.lines) :
    x.1.offset < mid ∧ x.2 < index + s.code.length ∧ x.2 < between := by
  rw [head] at hx
  have := mem_numbered hx
  have := inner.le_stop
  have := inner.end_eq.2
  omega

theorem fresh_body {visited : List Nat} (hv : ∀ x ∈ body.lines, x.2 ∉ visited) :
    ∀ x ∈ body.lines, x.2 ∉ visitsOf s.lines ++ visited := fun x hx =>
  inner.not_mem_visitsOf (fun _ hy => (mem_head head inner hy).2.1) hx (hv x hx)

include later

theorem fresh_rest {visited : List Nat} (hv : ∀ x ∈ rest.lines, x.2 ∉ visited) :
    ∀ x ∈ rest.lines, x.2 ∉ visitsOf body.lines ++ (visitsOf s.lines ++ visited) := fun x hx =>
  later.not_mem_visitsOf (fun _ hy => (inner.mem_lines hy).2.2.2) hx
    (later.not_mem_visitsOf (fun _ hy => (mem_head head inner hy).2.2) hx (hv x hx))

end

/-- A body takes an outline as it is. -/
theorem walkBody_eq (h : o.Laid base index stop next)
    (hr : ∀ s ∈ o.stretches, ∃ r, s.finish.resume p s.last.2 = .ok r) {behind : List Numbered}
    {target : Nat} (ht : stop ≤ target) (hb : ∀ x ∈ behind, stop ≤ x.1.offset)
    {visited : List Nat} (hv : ∀ x ∈ o.lines, x.2 ∉ visited) {more : List Stmt} {st : State}
    (hw : walkBody p behind target ⟨visitsOf o.lines ++ visited, []⟩ = .ok (more, st)) :
    walkBody p (o.lines ++ behind) target ⟨visited, []⟩ = .ok (o.stmts p ++ more, st) := by
  induction h generalizing behind target visited more st with
  | nil => exact hw
  | @cons s body rest base index stop next mid between head inner closes later ihb ihr =>
    have hstop := later.le_stop
    have hlater : ∀ x ∈ rest.lines ++ behind, mid ≤ x.1.offset := by
      intro x hx
      rcases List.mem_append.mp hx with hx | hx
      · exact (later.mem_lines hx).1
      · exact Nat.le_trans hstop (hb x hx)
    rw [lines_cons] at hv hw
    have hvb := fresh_body head inner fun x hx => hv x (by simp [hx])
    have hvr := fresh_rest head inner later fun x hx => hv x (by simp [hx])
    obtain ⟨⟨r, hres⟩, hrb, hrr⟩ := forall_stretches_cons.mp hr
    have hinner := inner_eq closes
      (ihb hrb (Nat.le_refl mid) hlater hvb (walkBody_of_le hlater _))
    -- behind the stretch the lines of its body are passed over
    have hskip : walkBody p (body.lines ++ (rest.lines ++ behind)) target
        ⟨visitsOf body.lines ++ (visitsOf s.lines ++ visited), []⟩ =
          .ok (rest.stmts p ++ more, st) := by
      rw [walkBody_append_of_mem]
      · refine ihr hrr ht hb hvr ?_
        simpa [visitsOf_append] using hw
      · intro x hx
        have := (inner.mem_lines hx).2.1
        omega
      · intro x hx
        exact List.mem_append_left _ (mem_visitsOf.mpr ⟨x, hx, rfl⟩)
    have hlt : ∀ x ∈ s.lines, x.1.offset < target := by
      intro x hx
      have := (mem_head head inner hx).1
      omega
    have hstretch := walkBody_stretch hlt (by rw [head]; exact numbered_pairwise _ _ _)
      (fun x hx => hv x (by simp [hx])) hres hinner hskip
    rw [lines_cons, stmts]
    simpa using hstretch

theorem eq_nil (h : o.Laid base index stop next) (he : stop ≤ base) : o = .nil := by
  cases o with
  | nil => rfl
  | cons s body rest =>
    have := h.mem_lines (x := s.first) (by simp [s.first_mem])
    omega

/-- A jump that does not lead past the start of what follows goes on with it, or ends the walk if
nothing follows. -/
theorem continues_of_le {start : Nat} {code : List Instruction} (h : o.Laid base index stop next)
    (hs : stop = start + codeWidth code) (hl : ∀ x ∈ o.lines, x ∈ numbered start 0 code)
    {t i : Nat} {r : Resume} (hr : resumeAt (.ofInstructions start code) i t = .ok r)
    (ht : t ≤ base) :
    (r.index? i = none ∧ o = .nil) ∨ ∃ j, r.index? i = some j ∧ ∀ x ∈ o.lines, j ≤ x.2 := by
  unfold resumeAt at hr
  rw [Program.stop_ofInstructions] at hr
  split at hr
  · cases hr
    exact .inl ⟨rfl, h.eq_nil (by omega)⟩
  · split at hr
    · next j hj =>
      cases hr
      obtain ⟨line, hline, rfl⟩ := Program.indexOf?_iff.mp hj
      refine .inr ⟨j, rfl, fun x hx => ?_⟩
      exact number_le_of_offset_le hline (hl x hx) (Nat.le_trans ht (h.mem_lines hx).1)
    · cases hr

section

variable {start : Nat} {code : List Instruction} {s : Stretch} {body rest : Outline}
  {mid between : Nat} (head : s.lines = numbered base index s.code)
  (inner : body.Laid (base + codeWidth s.code) (index + s.code.length) mid between)
  (later : rest.Laid mid between stop next)
include head inner later

/-- Behind a stretch the walk goes on with the rest, unless it jumps further. -/
theorem continues_of_finish (closes : s.finish.Closes body mid)
    (hs : stop = start + codeWidth code) (hl : ∀ x ∈ rest.lines, x ∈ numbered start 0 code)
    (hg : ∀ t, s.finish = .goto t → t ≤ s.behind) {r : Resume}
    (hr : s.finish.resume (.ofInstructions start code) s.last.2 = .ok r) :
    (r.index? s.last.2 = none ∧ rest = .nil) ∨
      ∃ j, r.index? s.last.2 = some j ∧ ∀ x ∈ rest.lines, j ≤ x.2 := by
  cases hf : s.finish with
  | stmts ss =>
    rw [hf] at hr
    cases hr
    refine .inr ⟨_, rfl, fun x hx => ?_⟩
    have := (mem_head head inner s.last_mem).2.2
    have := (later.mem_lines hx).2.2.1
    omega
  | goto t =>
    have hle := hg t hf
    rw [Stretch.behind_eq head] at hle
    rw [hf] at hr
    exact later.continues_of_le hs hl hr (Nat.le_trans hle inner.le_stop)
  | branch c t =>
    rw [hf] at hr closes
    exact later.continues_of_le hs hl hr (Nat.le_of_eq closes)

end

/-- The jumps outside of bodies in what follows a stretch, and its own. -/
theorem forall_outerGotos_cons {s : Stretch} {body rest : Outline} {P : Nat × Nat → Prop}
    (h : ∀ x ∈ (Outline.cons s body rest).outerGotos, P x) :
    (∀ t, s.finish = .goto t → P (s.behind, t)) ∧ ∀ x ∈ rest.outerGotos, P x := by
  constructor
  · intro t hf
    refine h (s.behind, t) ?_
    rw [outerGotos, hf]
    exact List.mem_cons_self
  · intro x hx
    refine h x ?_
    rw [outerGotos]
    split
    · exact List.mem_cons_of_mem _ hx
    · exact hx

/-- The walk at the top takes an outline as it is, if the jumps outside of bodies do not lead past
the next line. -/
theorem walk_eq {start : Nat} {code : List Instruction} (h : o.Laid base index stop next)
    (hs : stop = start + codeWidth code)
    (hr : ∀ s ∈ o.stretches, ∃ r,
      s.finish.resume (.ofInstructions start code) s.last.2 = .ok r)
    (hg : ∀ x ∈ o.outerGotos, x.2 ≤ x.1) (before : List Numbered)
    (hz : numbered start 0 code = before ++ o.lines) {visited : List Nat}
    (hb : ∀ x ∈ before, x.2 ∈ visited) (hv : ∀ x ∈ o.lines, x.2 ∉ visited) {visits i : Nat}
    (hn : o.lines.length ≤ visits) (hi : ∀ x ∈ o.lines, i ≤ x.2) :
    walk (.ofInstructions start code) visits i ⟨visited, []⟩ =
      .ok (o.stmts (.ofInstructions start code), ⟨visitsOf o.lines ++ visited, []⟩) := by
  induction h generalizing before visited visits i with
  | nil =>
    cases visits with
    | zero => rfl
    | succ visits =>
      rw [walk, Program.zipIdx_lines, hz, nextUnvisited_eq_none]
      · rfl
      · intro x hx
        exact .inr (hb x (by simpa using hx))
  | @cons s body rest base index stop next mid between head inner closes later ihb ihr =>
    rw [lines_cons] at hz hv hn hi
    obtain ⟨visits', rfl⟩ : ∃ v, visits = v + s.lines.length :=
      ⟨visits - s.lines.length, by rw [List.length_append] at hn; omega⟩
    rw [List.length_append, List.length_append] at hn
    have hvb := fresh_body head inner fun x hx => hv x (by simp [hx])
    have hvr := fresh_rest head inner later fun x hx => hv x (by simp [hx])
    have hlater : ∀ x ∈ rest.lines, mid ≤ x.1.offset := fun x hx => (later.mem_lines hx).1
    obtain ⟨⟨r, hres⟩, hrb, hrr⟩ := forall_stretches_cons.mp hr
    obtain ⟨hgs, hgr⟩ := forall_outerGotos_cons hg
    have hinner := inner_eq closes
      (inner.walkBody_eq hrb (Nat.le_refl mid) hlater hvb (walkBody_of_le hlater _))
    have hnext := continues_of_finish head inner later closes hs
      (fun x hx => by rw [hz]; simp [hx]) hgs hres
    -- the lines of the stretch and of its body join those that have been visited
    have hbefore : ∀ x ∈ before ++ (s.lines ++ body.lines),
        x.2 ∈ visitsOf body.lines ++ (visitsOf s.lines ++ visited) := by
      intro x hx
      simp only [List.mem_append] at hx ⊢
      rcases hx with hx | hx | hx
      · exact .inr (.inr (hb x hx))
      · exact .inr (.inl (mem_visitsOf.mpr ⟨x, hx, rfl⟩))
      · exact .inl (mem_visitsOf.mpr ⟨x, hx, rfl⟩)
    have hmore : Continues (.ofInstructions start code) visits' (r.index? s.last.2)
        ⟨visitsOf body.lines ++ (visitsOf s.lines ++ visited), []⟩
        (rest.stmts (.ofInstructions start code))
        ⟨visitsOf rest.lines ++ (visitsOf body.lines ++ (visitsOf s.lines ++ visited)), []⟩ := by
      rcases hnext with ⟨hnone, rfl⟩ | ⟨j, hj, hle⟩
      · rw [hnone]
        exact ⟨rfl, rfl⟩
      · rw [hj]
        exact ihr hs hrr hgr (before ++ (s.lines ++ body.lines)) (by rw [hz]; simp) hbefore hvr
          (by omega) hle
    have hlines : (Program.ofInstructions start code).lines.zipIdx =
        before ++ (s.lines ++ (body.lines ++ rest.lines)) := by
      rw [Program.zipIdx_lines, hz]
    rw [walk_stretch hlines (by rw [head]; exact numbered_pairwise _ _ _)
      (fun x hx => hv x (by simp [hx])) (fun x hx => .inr (hb x hx))
      (fun x hx => hi x (by simp [hx])) hres hinner hmore, stmts, lines_cons, visitsOf_append,
      visitsOf_append]
    simp

/-- The walk over the program of an outline gives the outline. -/
theorem walk_start {start : Nat} (h : o.Laid start 0 stop next)
    (hd : Divides o.stretches start o.code) (hg : ∀ x ∈ o.outerGotos, x.2 ≤ x.1) :
    walk (.ofInstructions start o.code) o.code.length 0 ⟨[], []⟩ =
      .ok (o.stmts (.ofInstructions start o.code), ⟨visitsOf o.lines ++ [], []⟩) := by
  have hr : ∀ s ∈ o.stretches, ∃ r,
      s.finish.resume (.ofInstructions start o.code) s.last.2 = .ok r := by
    intro s hs
    obtain ⟨r, hr, -⟩ := hd.exists_resume hs
    exact ⟨r, hr⟩
  have hlen : o.lines.length = o.code.length := by rw [h.lines_eq, length_numbered]
  exact h.walk_eq h.end_eq.1 hr hg [] h.lines_eq.symm (by simp) (fun x _ => List.not_mem_nil)
    (Nat.le_of_eq hlen) fun x _ => Nat.zero_le x.2

end Outline.Laid

/-! ## Building the statements of an outline -/

namespace Outline.Laid

variable {p : Program} {start index stop next n : Nat} {o : Outline}

/-- The label that may close the code is distinct from the others. -/
theorem nodup_closed (h : o.Laid start index stop next) :
    ((o.items p n ++ p.labelItems stop).filterMap label?).Nodup := by
  obtain ⟨h1, h2⟩ := h.nodup_labels p n
  rw [List.filterMap_append]
  unfold Program.labelItems
  split
  · have hc : ∀ name ∈ [labelAt stop],
        Named stop (stop + 1) (n + o.conditions) (n + o.conditions) name := fun name hname =>
      .inl ⟨stop, Nat.le_refl stop, Nat.lt_succ_self stop, List.mem_singleton.mp hname⟩
    exact nodup_append_of_named h1 (List.pairwise_singleton _ _) h2 hc (Nat.le_refl stop)
      (.inl (Nat.le_refl _))
  · simpa using h1

theorem labelsAt_closed (h : o.Laid start index stop next)
    (hf : ∀ s ∈ o.stretches, s.finish.Faithful s.code) :
    labelsAt start (o.items p n ++ p.labelItems stop) =
      labelsAt start (o.items p n) ++ labelsAt stop (p.labelItems stop) := by
  have hw : totalWidth (o.items p n) = codeWidth o.code :=
    totalWidth_of_opcodes (opcodes_items h.shaped hf n) o.wellFormed
  rw [labelsAt_append, hw, ← h.end_eq.1]

/-- Where a jump goes, there is a label. -/
theorem mem_labelsAt_of_goto (h : o.Laid start index stop next)
    (hd : Divides o.stretches start o.code) (hf : ∀ s ∈ o.stretches, s.finish.Faithful s.code)
    (hp : p = .ofInstructions start o.code) {s : Stretch} (hs : s ∈ o.stretches) {t : Nat}
    (ht : s.finish = .goto t) :
    (labelAt t, t) ∈ labelsAt start (o.items p n ++ p.labelItems stop) := by
  have hl : p.isLabelled t = true := by
    obtain ⟨stack, -, he⟩ := s.phrase.closed
    rw [ht] at he
    rw [hp]
    exact Program.isLabelled_iff.mpr
      ⟨s.last, hd.mem_lines.mpr ⟨s, hs, s.last_mem⟩, he.1, he.2.1⟩
  rw [h.labelsAt_closed hf]
  rcases hd.lands s hs t (by rw [ht]; rfl) with he | ⟨s', hs', rfl⟩
  · obtain rfl : t = stop := he.trans h.end_eq.1.symm
    refine List.mem_append_right _ ?_
    rw [Program.labelItems, if_pos hl]
    exact List.mem_cons_self
  · exact List.mem_append_left _ (h.mem_labelsAt hf hs' hl)

/-- The statements that the walk gives, with the label that may close them, have the code of the
outline. -/
theorem build_eq (h : o.Laid start index stop next) (hd : Divides o.stretches start o.code)
    (hf : ∀ s ∈ o.stretches, s.finish.Faithful s.code) (hp : p = .ofInstructions start o.code) :
    build start (o.stmts p ++ p.labelsOf stop) = .ok o.code := by
  have hlow : Lowers 0 (o.stmts p ++ p.labelsOf stop) (o.items p 0 ++ p.labelItems stop)
      (0 + o.conditions) :=
    lowers_append.mpr ⟨_, _, _, lowers_stmts h.shaped hf 0, lowers_labelsOf p _ stop, rfl⟩
  have hnodup : ((labelsAt start (o.items p 0 ++ p.labelItems stop)).reverse.map
      Prod.fst).Nodup := by
    rw [List.map_reverse, List.nodup_reverse, map_fst_labelsAt]
    exact h.nodup_closed
  have hlookup : ∀ x ∈ labelsAt start (o.items p 0 ++ p.labelItems stop),
      (labelsAt start (o.items p 0 ++ p.labelItems stop)).reverse.lookup x.1 = some x.2 :=
    fun x hx => lookup_of_mem hnodup (List.mem_reverse.mpr hx)
  refine build_eq_ok.mpr ⟨_, _, _, hlow, labelTable_eq_ok.mpr ⟨rfl, hnodup⟩, ?_⟩
  refine linkAll_append.mpr ⟨o.code, [], h.linkAll_items hf (fun x hx => hlookup x ?_)
    (fun s hs t ht => hlookup _ (h.mem_labelsAt_of_goto hd hf hp hs ht)), ?_, by simp⟩
  · rw [h.labelsAt_closed hf]
    exact List.mem_append_left _ hx
  · unfold Program.labelItems
    split <;> rfl

end Outline.Laid

/-! ## Scripts -/

namespace Script

/-- The code of statements, with labels. -/
def itemsOf (stmts : List Stmt) : List CodeItem := (ofStmts 0 (withResets stmts)).1.code

/-- The offset of a label in a script at `start`. -/
def labelOffset? (start : Nat) (stmts : List Stmt) (name : String) : Option Nat :=
  (labelsAt start (itemsOf stmts)).lookup name

/-- The offset behind the code of statements at `start`. -/
def offsetBehind (start : Nat) (stmts : List Stmt) : Nat := start + totalWidth (itemsOf stmts)

/-- The jumps outside all bodies go back, or no further than to what follows them. -/
def JumpsBack (start : Nat) (stmts : List Stmt) : Prop :=
  ∀ before name after t, outer stmts = before ++ .goto name :: after →
    labelOffset? start stmts name = some t → t ≤ offsetBehind start (before ++ [.goto name])

theorem itemsOf_eq {stmts : List Stmt} {items : List CodeItem} {n : Nat}
    (h : Lowers 0 stmts items n) : itemsOf stmts = items := by
  rw [itemsOf, show ofStmts 0 (withResets stmts) = _ from h]

theorem outerGotos_le {start : Nat} {stmts : List Stmt} {items : List CodeItem} {n : Nat}
    {labels : List (String × Nat)} {o : Outline} {stop next : Nat} (hl : Lowers 0 stmts items n)
    (ht : labelTable start items = .ok labels)
    (ho : Outlined labels 0 stmts items start 0 o stop next) (hb : JumpsBack start stmts) :
    ∀ x ∈ o.outerGotos, x.2 ≤ x.1 := by
  intro x hx
  obtain ⟨before, name, after, c, m, hout, hlow, hname, he⟩ := ho.outermost x hx
  obtain ⟨rfl, hnodup⟩ := labelTable_eq_ok.mp ht
  have hoff : labelOffset? start stmts name = some x.2 := by
    rw [labelOffset?, itemsOf_eq hl]
    rw [List.map_reverse, List.nodup_reverse] at hnodup
    exact lookup_of_mem hnodup (List.mem_reverse.mp (mem_of_lookup hname))
  have hbehind : offsetBehind start (before ++ [.goto name]) = x.1 := by
    have hlow' : Lowers 0 (before ++ [.goto name]) (c ++ [.insn .goto [.label name]]) m :=
      lowers_append.mpr ⟨_, _, _, hlow, lowers_goto.mpr ⟨rfl, rfl⟩, rfl⟩
    rw [offsetBehind, itemsOf_eq hlow', he, totalWidth_append, Nat.add_assoc]
    rfl
  rw [← hbehind]
  exact hb before name after x.2 hout hoff

/-- **Code comes back.**  Code of a script is recovered with nothing left on the stack, and building
what is recovered gives the same code, if no statement of the script is idle and its jumps outside
all bodies go back. -/
theorem build_recovered {start : Nat} {stmts : List Stmt} {code : List Instruction}
    (h : build start stmts = .ok code) (hi : Busy stmts) (hb : JumpsBack start stmts) :
    ∃ d, Structured.ofInstructions start code = .ok d ∧ d.residual = [] ∧
      build start d.stmts = .ok code := by
  obtain ⟨items, n, labels, o, stop, next, hlow, htab, ho, rfl, hd⟩ := exists_outlined_of_build h
  have hf := ho.faithful hi
  have hp := Program.build_eq_ok_of_wellNested (ho.laid.wellNested hd)
  have hw := ho.laid.walk_start hd (outerGotos_le hlow htab ho hb)
  refine ⟨_, Structured.ofInstructions_eq_ok hp hw, rfl, ?_⟩
  rw [← ho.laid.end_eq.1]
  exact ho.laid.build_eq hd hf rfl

/-- A loop with a jump out of a body into another place, and a jump to what follows. -/
def loop : List Stmt :=
  [.label "again",
   .ifThen (.num 1) [.goto "past", .ifThen (.num 2) [.call "Entity" "stop" []], .label "past"],
   .block [.goto "next", .label "next"],
   .goto "again",
   .ret]

theorem jumpsBack_loop : JumpsBack 0 loop := by
  intro before name after t h ht
  have hnext : labelOffset? 0 loop "next" = some 15 := by decide +kernel
  have hagain : labelOffset? 0 loop "again" = some 0 := by decide +kernel
  simp [loop, outer, outerStmt, List.cons_eq_append_iff] at h
  obtain ⟨_, rfl, ⟨rfl, rfl, -⟩ | ⟨rfl, rfl, -⟩⟩ := h
  · rw [hnext] at ht
    cases ht
    decide +kernel
  · rw [hagain] at ht
    cases ht
    exact Nat.zero_le _

theorem build_recovered_loop : ∃ code d, build 0 loop = .ok code ∧
    Structured.ofInstructions 0 code = .ok d ∧ d.residual = [] ∧ build 0 d.stmts = .ok code := by
  have hbusy : Busy loop := by
    intro e he
    have : e = .call (.path "Entity" "stop") [] := by
      simpa [loop, within, withinStmt, Stmt.call] using he
    rw [this]
    decide
  have hok : (build 0 loop).isOk = true := by decide +kernel
  cases hcode : build 0 loop with
  | error e =>
    rw [hcode] at hok
    cases hok
  | ok code =>
    obtain ⟨d, hd⟩ := build_recovered hcode hbusy jumpsBack_loop
    exact ⟨code, d, rfl, hd⟩

end Script

end MapScript
