import Mathlib.Data.List.Flatten
import Mathlib.Data.List.Perm.Subperm
import MapScript.Proofs.Visits

/-!
# The walk over divided code

Let code fall into stretches such that jumps go to where stretches start or to the end of the code.
The walk then takes stretches as a whole, in whatever order the jumps lead it, each of them at most
once.  What it gives is again an outline of stretches, with the stack empty at the end:

    walk p p.lines.length 0 ⟨[], []⟩ = .ok (o.stmts p, ⟨visitsOf o.lines, []⟩)   (exists_walk)
-/

namespace MapScript

open Structured

/-- A stretch without a branch has nothing in its body. -/
def Finish.Hollow (body : Outline) : Finish → Prop
  | branch _ _ => True
  | _ => body = .nil

namespace Outline

/-- Only branches have bodies. -/
def Shaped : Outline → Prop
  | nil => True
  | cons s body rest => s.finish.Hollow body ∧ body.Shaped ∧ rest.Shaped

/-- The statements of an outline. -/
def stmts (p : Program) : Outline → List Stmt
  | nil => []
  | cons s body rest => s.emitted p (body.stmts p) ++ rest.stmts p

end Outline

/-- The lines of stretches. -/
def linesOf (ss : List Stretch) : List Numbered := ss.flatMap Stretch.lines

theorem linesOf_append (xs ys : List Stretch) : linesOf (xs ++ ys) = linesOf xs ++ linesOf ys := by
  simp [linesOf]

theorem mem_linesOf {x : Numbered} {ss : List Stretch} :
    x ∈ linesOf ss ↔ ∃ s ∈ ss, x ∈ s.lines := List.mem_flatMap

/-- All of `s` stands before `s'`. -/
def Stretch.Ahead (s s' : Stretch) : Prop := ∀ x ∈ s.lines, ∀ y ∈ s'.lines, Before x y

namespace Divides

variable {ss : List Stretch} {start : Nat} {code : List Instruction}

/-! ## Stretches do not overlap -/

theorem pairwise (h : Divides ss start code) {s : Stretch} (hs : s ∈ ss) :
    s.lines.Pairwise Before := by
  have hp := numbered_pairwise start 0 code
  rw [h.lines, List.pairwise_flatMap] at hp
  exact hp.1 s hs

/-- Of two stretches one is ahead of the other. -/
theorem apart (h : Divides ss start code) {s s' : Stretch} (hs : s ∈ ss) (hs' : s' ∈ ss) :
    s = s' ∨ s.Ahead s' ∨ s'.Ahead s := by
  have hp := numbered_pairwise start 0 code
  rw [h.lines, List.pairwise_flatMap] at hp
  refine List.Pairwise.forall_of_forall_of_flip
    (R := fun s s' : Stretch => s = s' ∨ s.Ahead s' ∨ s'.Ahead s) (fun s _ => .inl rfl) ?_ ?_ hs hs'
  · exact hp.2.imp fun hb => .inr (.inl hb)
  · exact hp.2.imp fun hb => .inr (.inr hb)

/-- Where jumps go. -/
def Boundary (ss : List Stretch) (start : Nat) (code : List Instruction) (t : Nat) : Prop :=
  t = start + codeWidth code ∨ ∃ s ∈ ss, s.offset = t

/-- Jumps do not go to the middle of a stretch. -/
theorem uncut (h : Divides ss start code) {t : Nat} (ht : Boundary ss start code t) {s : Stretch}
    (hs : s ∈ ss) : t ≤ s.offset ∨ ∀ x ∈ s.lines, x.1.offset < t := by
  rcases ht with rfl | ⟨s', hs', rfl⟩
  · exact .inr fun x hx => (mem_numbered (h.mem_lines.mpr ⟨s, hs, hx⟩)).2.1
  · rcases h.apart hs hs' with rfl | hb | hb
    · exact .inl (Nat.le_refl _)
    · exact .inr fun x hx => (hb x hx _ s'.first_mem).1
    · exact .inl (Nat.le_of_lt (hb _ s'.first_mem _ s.first_mem).1)

/-- The number of a line at which a stretch starts, or behind which one ends. -/
def Entry (ss : List Stretch) (i : Nat) : Prop :=
  ∀ s ∈ ss, (∀ x ∈ s.lines, i ≤ x.2) ∨ ∀ x ∈ s.lines, x.2 < i

theorem entry_first (h : Divides ss start code) {s : Stretch} (hs : s ∈ ss) :
    Entry ss s.first.2 := by
  intro s' hs'
  rcases h.apart hs' hs with rfl | hb | hb
  · left
    intro x hx
    obtain ⟨tail, ht⟩ := s'.exists_lines_eq
    have hp := h.pairwise hs'
    rw [ht] at hx hp
    rcases List.mem_cons.mp hx with rfl | hx
    · exact Nat.le_refl _
    · exact Nat.le_of_lt ((List.pairwise_cons.mp hp).1 x hx).2
  · exact .inr fun x hx => (hb x hx _ s.first_mem).2
  · exact .inl fun x hx => Nat.le_of_lt (hb _ s.first_mem x hx).2

theorem entry_behind (h : Divides ss start code) {s : Stretch} (hs : s ∈ ss) :
    Entry ss (s.last.2 + 1) := by
  intro s' hs'
  rcases h.apart hs' hs with rfl | hb | hb
  · right
    intro x hx
    have hp := h.pairwise hs'
    rw [Stretch.lines] at hx hp
    rcases List.mem_append.mp hx with hx | hx
    · have := ((List.pairwise_append.mp hp).2.2 x hx _ List.mem_cons_self).2
      omega
    · rw [List.mem_singleton.mp hx]
      omega
  · right
    intro x hx
    have := (hb x hx _ s.last_mem).2
    omega
  · exact .inl fun x hx => (hb _ s.last_mem x hx).2

/-- A jump goes on at the start of a stretch, or ends the walk. -/
theorem exists_resumeAt (h : Divides ss start code) {s : Stretch} (hs : s ∈ ss) {t : Nat}
    (ht : s.finish.target? = some t) (i : Nat) :
    ∃ r, resumeAt (Program.ofInstructions start code) i t = .ok r ∧
      ∀ j, r.index? i = some j → Entry ss j := by
  rw [resumeAt, Program.stop_ofInstructions]
  rcases h.lands s hs t ht with rfl | ⟨s', hs', rfl⟩
  · refine ⟨.stop, if_pos rfl, ?_⟩
    intro j hj
    cases hj
  · have hmem : s'.first ∈ numbered start 0 code := h.mem_lines.mpr ⟨s', hs', s'.first_mem⟩
    have hlt := (mem_numbered hmem).2.1
    refine ⟨.line s'.first.2, ?_, ?_⟩
    · rw [Stretch.offset, if_neg (by omega), Program.indexOf?_of_mem hmem]
    · intro j hj
      cases hj
      exact h.entry_first hs'

/-- Behind a stretch the walk goes on at the start of one, or ends. -/
theorem exists_resume (h : Divides ss start code) {s : Stretch} (hs : s ∈ ss) :
    ∃ r, s.finish.resume (Program.ofInstructions start code) s.last.2 = .ok r ∧
      ∀ i, r.index? s.last.2 = some i → Entry ss i := by
  cases hf : s.finish with
  | stmts ss' =>
    refine ⟨.next, rfl, ?_⟩
    intro i hi
    cases hi
    exact h.entry_behind hs
  | goto t => exact h.exists_resumeAt hs (by rw [hf]; rfl) s.last.2
  | branch c t => exact h.exists_resumeAt hs (by rw [hf]; rfl) s.last.2

/-! ## Stretches are taken whole -/

/-- The stretches that the walk has taken, in order. -/
structure Progress (ss done : List Stretch) : Prop where
  subset : ∀ s ∈ done, s ∈ ss
  nodup : done.Nodup

theorem visited_of_mem {done : List Stretch} {s : Stretch} (hs : s ∈ done) {x : Numbered}
    (hx : x ∈ s.lines) : x.2 ∈ visitsOf (linesOf done) :=
  mem_visitsOf.mpr ⟨x, mem_linesOf.mpr ⟨s, hs, hx⟩, rfl⟩

theorem not_visited_of_not_mem (h : Divides ss start code) {done : List Stretch}
    (hd : Progress ss done) {s : Stretch} (hs : s ∈ ss) (hn : s ∉ done) {x : Numbered}
    (hx : x ∈ s.lines) : x.2 ∉ visitsOf (linesOf done) := by
  intro hm
  obtain ⟨y, hy, he⟩ := mem_visitsOf.mp hm
  obtain ⟨s', hs', hy⟩ := mem_linesOf.mp hy
  rcases h.apart hs (hd.subset s' hs') with rfl | hb | hb
  · exact hn hs'
  · have := (hb x hx y hy).2
    omega
  · have := (hb y hy x hx).2
    omega

theorem Progress.snoc {done : List Stretch} (hd : Progress ss done) {s : Stretch} (hs : s ∈ ss)
    (hn : s ∉ done) : Progress ss (done ++ [s]) where
  subset s' hs' := by
    rcases List.mem_append.mp hs' with hs' | hs'
    · exact hd.subset s' hs'
    · rw [List.mem_singleton.mp hs']
      exact hs
  nodup := by
    rw [List.nodup_append]
    refine ⟨hd.nodup, List.pairwise_singleton _ _, fun a ha b hb => ?_⟩
    rw [List.mem_singleton.mp hb]
    rintro rfl
    exact hn ha

/-- The outline of what a walk takes behind the stretches `done`. -/
structure Takes (ss done : List Stretch) (o : Outline) : Prop where
  shaped : o.Shaped
  progress : Progress ss (done ++ o.stretches)

theorem Takes.nil {done : List Stretch} (hd : Progress ss done) : Takes ss done .nil where
  shaped := trivial
  progress := by simpa [Outline.stretches] using hd

theorem Takes.cons {done : List Stretch} {s : Stretch} {body rest : Outline}
    (hf : s.finish.Hollow body) (hb : Takes ss (done ++ [s]) body)
    (hr : Takes ss (done ++ [s] ++ body.stretches) rest) :
    Takes ss done (.cons s body rest) where
  shaped := ⟨hf, hb.shaped, hr.shaped⟩
  progress := by simpa [Outline.stretches] using hr.progress

/-- The body of a stretch, if the walk over the lines behind it gives outlines. -/
theorem exists_inner (h : Divides ss start code) {s : Stretch} (hs : s ∈ ss)
    {done : List Stretch} (hd : Progress ss (done ++ [s])) {walk : BodyWalk}
    (hw : ∀ t, Boundary ss start code t → ∃ o, Takes ss (done ++ [s]) o ∧
      walk t ⟨visitsOf (linesOf (done ++ [s])), []⟩ = .ok (o.stmts (.ofInstructions start code),
        ⟨visitsOf (linesOf (done ++ [s] ++ o.stretches)), []⟩)) :
    ∃ o, Takes ss (done ++ [s]) o ∧ s.finish.Hollow o ∧
      s.finish.Inner walk (visitsOf (linesOf (done ++ [s]))) (o.stmts (.ofInstructions start code))
        (visitsOf (linesOf (done ++ [s] ++ o.stretches))) := by
  cases hf : s.finish with
  | stmts ss' => exact ⟨.nil, .nil hd, rfl, rfl, by simp [Outline.stretches]⟩
  | goto t => exact ⟨.nil, .nil hd, rfl, rfl, by simp [Outline.stretches]⟩
  | branch c t =>
    obtain ⟨o, ho, hwalk⟩ := hw t (h.lands s hs t (by rw [hf]; rfl))
    exact ⟨o, ho, trivial, hwalk⟩

theorem visitsOf_linesOf_snoc (done : List Stretch) (s : Stretch) :
    visitsOf (linesOf (done ++ [s])) = visitsOf s.lines ++ visitsOf (linesOf done) := by
  rw [linesOf_append, visitsOf_append]
  simp [linesOf]

/-- A body is an outline. -/
theorem exists_walkBody (h : Divides ss start code) (behind : List Stretch)
    (hsub : ∀ s ∈ behind, s ∈ ss) {done : List Stretch} (hd : Progress ss done) {t : Nat}
    (ht : Boundary ss start code t) : ∃ o, Takes ss done o ∧
      walkBody (.ofInstructions start code) (linesOf behind) t ⟨visitsOf (linesOf done), []⟩ =
        .ok (o.stmts (.ofInstructions start code),
          ⟨visitsOf (linesOf (done ++ o.stretches)), []⟩) := by
  induction behind generalizing done t with
  | nil => exact ⟨.nil, .nil hd, by simp [linesOf, walkBody, Outline.stmts, Outline.stretches]⟩
  | cons s behind ih =>
    have hs := hsub s List.mem_cons_self
    have hsub' : ∀ s ∈ behind, s ∈ ss := fun s hs => hsub s (List.mem_cons_of_mem _ hs)
    have hlines : linesOf (s :: behind) = s.lines ++ linesOf behind := by simp [linesOf]
    rw [hlines]
    rcases h.uncut ht hs with hle | hlt
    · -- the body ends ahead of this stretch
      obtain ⟨tail, htail⟩ := s.exists_lines_eq
      rw [htail, List.cons_append, walkBody_cons_of_le hle]
      exact ⟨.nil, .nil hd, by simp [Outline.stmts, Outline.stretches]⟩
    · by_cases hn : s ∈ done
      · rw [walkBody_append_of_mem hlt fun x hx => visited_of_mem hn hx]
        exact ih hsub' hd ht
      · have hd' := hd.snoc hs hn
        obtain ⟨r, hr, -⟩ := h.exists_resume hs
        obtain ⟨body, hbody, hhollow, hinner⟩ := h.exists_inner hs hd' fun t ht =>
          ih hsub' hd' ht
        obtain ⟨rest, hrest, hwalk⟩ := ih hsub' hbody.progress ht
        refine ⟨.cons s body rest, .cons hhollow hbody hrest, ?_⟩
        rw [visitsOf_linesOf_snoc] at hinner
        rw [walkBody_stretch hlt (h.pairwise hs)
          (fun x hx => h.not_visited_of_not_mem hd hs hn hx) hr hinner hwalk]
        simp [Outline.stmts, Outline.stretches]

/-! ## The walk at the top -/

/-- No line is taken twice. -/
theorem subperm_lines (h : Divides ss start code) {done : List Stretch}
    (hd : Progress ss done) : (linesOf done).Subperm (numbered start 0 code) := by
  obtain ⟨l, hperm, hsub⟩ := hd.nodup.subperm hd.subset
  rw [h.lines]
  exact ⟨l.flatMap Stretch.lines, hperm.flatMap_right Stretch.lines, hsub.flatMap Stretch.lines⟩

theorem length_linesOf_le (h : Divides ss start code) {done : List Stretch}
    (hd : Progress ss done) : (linesOf done).length ≤ code.length := by
  have := (h.subperm_lines hd).length_le
  rwa [length_numbered] at this

/-- The first stretch from `index` on that has not been taken, if there is one. -/
theorem exists_next {index : Nat} {behind : List Stretch} (hi : Entry behind index)
    (done : List Stretch) :
    (∀ s ∈ behind, s ∈ done ∨ ∀ x ∈ s.lines, x.2 < index) ∨
    ∃ before s after, behind = before ++ s :: after ∧ s ∉ done ∧ (∀ x ∈ s.lines, index ≤ x.2) ∧
      ∀ s ∈ before, s ∈ done ∨ ∀ x ∈ s.lines, x.2 < index := by
  induction behind with
  | nil => exact .inl (by simp)
  | cons s behind ih =>
    by_cases hs : s ∈ done ∨ ∀ x ∈ s.lines, x.2 < index
    · rcases ih fun s hs => hi s (List.mem_cons_of_mem _ hs) with hall |
        ⟨before, s', after, rfl, hn, hle, hb⟩
      · exact .inl (List.forall_mem_cons.mpr ⟨hs, hall⟩)
      · exact .inr ⟨s :: before, s', after, rfl, hn, hle, List.forall_mem_cons.mpr ⟨hs, hb⟩⟩
    · rw [not_or] at hs
      have hle := (hi s List.mem_cons_self).resolve_right hs.2
      exact .inr ⟨[], s, behind, rfl, hs.1, hle, by simp⟩

theorem lt_or_visited {index : Nat} {done before : List Stretch}
    (hb : ∀ s ∈ before, s ∈ done ∨ ∀ x ∈ s.lines, x.2 < index) :
    ∀ x ∈ linesOf before, x.2 < index ∨ x.2 ∈ visitsOf (linesOf done) := by
  intro x hx
  obtain ⟨s, hs, hx⟩ := mem_linesOf.mp hx
  rcases hb s hs with hs | hlt
  · exact .inr (visited_of_mem hs hx)
  · exact .inl (hlt x hx)

/-- The walk at the top is an outline, if it may make as many visits as there are lines left. -/
theorem exists_walk_from (h : Divides ss start code) (visits index : Nat)
    (hi : Entry ss index) (done : List Stretch) (hd : Progress ss done)
    (hv : code.length ≤ visits + (linesOf done).length) : ∃ o, Takes ss done o ∧
      walk (.ofInstructions start code) visits index ⟨visitsOf (linesOf done), []⟩ =
        .ok (o.stmts (.ofInstructions start code),
          ⟨visitsOf (linesOf (done ++ o.stretches)), []⟩) := by
  induction visits using Nat.strongRecOn generalizing index done with
  | ind visits ih =>
    have hz : (Program.ofInstructions start code).lines.zipIdx = linesOf ss := by
      rw [Program.zipIdx_lines, h.lines]
      rfl
    rcases exists_next hi done with hall | ⟨before, s, after, hss, hn, hle, hb⟩
    · refine ⟨.nil, .nil hd, ?_⟩
      cases visits with
      | zero => simp [walk, Outline.stmts, Outline.stretches]
      | succ visits =>
        rw [walk, hz, nextUnvisited_eq_none (lt_or_visited hall)]
        simp [Outline.stmts, Outline.stretches]
    · have hs : s ∈ ss := by simp [hss]
      have hd' := hd.snoc hs hn
      have hlines : linesOf ss = linesOf before ++ (s.lines ++ linesOf after) := by
        simp [hss, linesOf]
      have hlen : (linesOf (done ++ [s])).length = (linesOf done).length + s.lines.length := by
        simp [linesOf]
      have hpos : 0 < s.lines.length := by simp [Stretch.lines]
      -- the stretch has not been taken, so there are visits left for all of it
      obtain ⟨visits', rfl⟩ : ∃ v, visits = v + s.lines.length :=
        ⟨visits - s.lines.length, by have := h.length_linesOf_le hd'; omega⟩
      obtain ⟨r, hr, hentry⟩ := h.exists_resume hs
      obtain ⟨body, hbody, hhollow, hinner⟩ := h.exists_inner hs hd' fun t ht =>
        h.exists_walkBody after (fun s hs => by simp [hss, hs]) hd' ht
      have hmore : ∃ o, Takes ss (done ++ [s] ++ body.stretches) o ∧
          Continues (.ofInstructions start code) visits' (r.index? s.last.2)
            ⟨visitsOf (linesOf (done ++ [s] ++ body.stretches)), []⟩
            (o.stmts (.ofInstructions start code))
            ⟨visitsOf (linesOf (done ++ [s] ++ body.stretches ++ o.stretches)), []⟩ := by
        cases hnext : r.index? s.last.2 with
        | none => exact ⟨.nil, .nil hbody.progress, rfl, by simp [Outline.stretches]⟩
        | some i =>
          refine ih visits' (by omega) i (hentry i hnext) _ hbody.progress ?_
          rw [linesOf_append, List.length_append]
          omega
      obtain ⟨rest, hrest, hwalk⟩ := hmore
      refine ⟨.cons s body rest, .cons hhollow hbody hrest, ?_⟩
      rw [visitsOf_linesOf_snoc] at hinner
      rw [walk_stretch (hz.trans hlines) (h.pairwise hs)
        (fun x hx => h.not_visited_of_not_mem hd hs hn hx) (lt_or_visited hb) hle hr hinner hwalk]
      simp [Outline.stmts, Outline.stretches]

/-- **The walk over divided code is an outline.** -/
theorem exists_walk (h : Divides ss start code) : ∃ o, Takes ss [] o ∧
    walk (.ofInstructions start code) code.length 0 ⟨[], []⟩ =
      .ok (o.stmts (.ofInstructions start code), ⟨visitsOf o.lines, []⟩) := by
  obtain ⟨o, ho, hwalk⟩ := h.exists_walk_from code.length 0
    (fun s _ => .inl fun x _ => Nat.zero_le _) [] ⟨by simp, List.nodup_nil⟩ (by simp)
  exact ⟨o, ho, hwalk⟩

end Divides

/-- The statements of code that is accepted, from the walk over it. -/
theorem Structured.ofInstructions_eq_ok {start : Nat} {code : List Instruction} {ss : List Stmt}
    {st : State}
    (hb : Program.build start code = .ok (.ofInstructions start code))
    (hw : walk (.ofInstructions start code) code.length 0 ⟨[], []⟩ = .ok (ss, st)) :
    Structured.ofInstructions start code = .ok
      ⟨ss ++ (Program.ofInstructions start code).labelsOf (start + codeWidth code),
        st.stack.reverse⟩ := by
  unfold Structured.ofInstructions
  rw [hb]
  show Structured.ofProgram _ = _
  unfold ofProgram
  rw [Program.length_lines, hw]
  rw [Program.stop_ofInstructions]
  rfl

end MapScript
