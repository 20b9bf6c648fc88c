import MapScript.Proofs.Nesting

/-!
# Walking over a stretch

The walk takes a stretch as a whole: from the empty stack it visits the lines one by one, and behind
the last one the stack is empty again.  This holds in a body (`walkBody_stretch`) and at the
top (`walk_stretch`); what is left to say in each case is what the walk of the body of a branch
gives, and where it goes on.
-/

namespace MapScript

open Structured Recovery

/-- The label at an offset, if it needs one. -/
def Program.labelsOf (p : Program) (t : Nat) : List Stmt :=
  if p.isLabelled t then [.label (labelAt t)] else []

/-- The numbers of lines in the order in which they stand on the list of visited ones. -/
def visitsOf (lines : List Numbered) : List Nat := (lines.map (·.2)).reverse

theorem visitsOf_cons (x : Numbered) (lines : List Numbered) :
    visitsOf (x :: lines) = visitsOf lines ++ [x.2] := by
  simp [visitsOf]

theorem visitsOf_append (xs ys : List Numbered) :
    visitsOf (xs ++ ys) = visitsOf ys ++ visitsOf xs := by
  simp [visitsOf]

theorem mem_visitsOf {i : Nat} {lines : List Numbered} :
    i ∈ visitsOf lines ↔ ∃ x ∈ lines, x.2 = i := by
  simp [visitsOf]

/-- The numbers of the lines of a program in the order in which the walk visits them. -/
def Structured.visitOrder (p : Program) : List Nat :=
  match walk p p.lines.length 0 ⟨[], []⟩ with
  | .ok (_, st) => st.visited.reverse
  | .error _ => []

theorem Structured.visitOrder_eq {p : Program} {ss : List Stmt} {st : State}
    {lines : List Numbered} (h : walk p p.lines.length 0 ⟨[], []⟩ = .ok (ss, st))
    (hv : st.visited = visitsOf lines) : visitOrder p = lines.map (·.2) := by
  rw [visitOrder, h]
  simp [hv, visitsOf]

namespace Finish

/-- The statements that a phrase ends in; `body` is what its branch skips. -/
def emitted (body : List Stmt) : Finish → List Stmt
  | stmts ss => ss
  | goto t => [.goto (labelAt t)]
  | branch c _ => [.ifThen c body]

/-- The walk of the body, of which there is none but for a branch. -/
def Inner (walk : BodyWalk) (visited : List Nat) (body : List Stmt) (visited' : List Nat) :
    Finish → Prop
  | branch _ t => walk t ⟨visited, []⟩ = .ok (body, ⟨visited', []⟩)
  | _ => body = [] ∧ visited' = visited

/-- Where the walk at the top goes on. -/
def resume (p : Program) (index : Nat) : Finish → Except RecoveryError Resume
  | stmts _ => .ok .next
  | goto t | branch _ t => resumeAt p index t

end Finish

/-- The statements of a stretch: its labels, and what it ends in. -/
def Stretch.emitted (p : Program) (s : Stretch) (body : List Stmt) : List Stmt :=
  s.init.flatMap (fun x => p.labelsOf x.1.offset) ++
    grouped (p.labelsOf s.last.1.offset ++ s.finish.emitted body)

/-! ## One line -/

section

variable {p : Program} {walk : BodyWalk} {x : Numbered} {visited visited' : List Nat}
  {stack stack' : ValueStack} {body ss : List Stmt}

theorem visit_plain (hj : x.1.insn.kind.isJump = false)
    (hr : ∀ line, (recover x.1.insn line).run stack = (.ok ss, stack')) :
    visit p walk x.1 x.2 ⟨visited, stack⟩ =
      .ok (grouped (p.labelsOf x.1.offset ++ ss), .next, ⟨x.2 :: visited, stack'⟩) := by
  unfold visit
  cases hk : x.1.insn.kind with
  | goto =>
    rw [hk] at hj
    cases hj
  | gotoIfFalse =>
    rw [hk] at hj
    cases hj
  | _ =>
    simp only [hr]
    rfl

theorem grouped_labelsOf (p : Program) (t : Nat) : grouped (p.labelsOf t ++ []) = p.labelsOf t := by
  unfold Program.labelsOf
  split <;> rfl

theorem visit_finish {finish : Finish} {r : Resume} (he : finish.Ends x.1.insn stack)
    (hr : finish.resume p x.2 = .ok r) (hi : finish.Inner walk (x.2 :: visited) body visited') :
    visit p walk x.1 x.2 ⟨visited, stack⟩ =
      .ok (grouped (p.labelsOf x.1.offset ++ finish.emitted body), r, ⟨visited', []⟩) := by
  cases finish with
  | stmts ss =>
    obtain ⟨rfl, rfl⟩ := hi
    cases hr
    exact visit_plain he.1 he.2
  | goto t =>
    obtain ⟨rfl, rfl⟩ := hi
    obtain ⟨hk, ht, rfl⟩ := he
    have hres : resumeAt p x.2 t = .ok r := hr
    unfold visit targetOf
    simp only [hk, ht]
    show (resumeAt p x.2 t >>= _) = _
    rw [hres]
    rfl
  | branch c t =>
    obtain ⟨hk, ht, rfl⟩ := he
    have hres : resumeAt p x.2 t = .ok r := hr
    have hwalk : walk t ⟨x.2 :: visited, []⟩ = .ok (body, ⟨visited', []⟩) := hi
    unfold visit targetOf
    simp only [hk, ht]
    show (walk t ⟨x.2 :: visited, []⟩ >>= _) = _
    rw [hwalk]
    show (resumeAt p x.2 t >>= _) = _
    rw [hres]
    rfl

end

/-! ## One step of the walk -/

section

variable {p : Program} {x : Numbered} {rest : List Numbered} {target : Nat} {st st' : State}
  {ss : List Stmt}

theorem walkBody_cons_of_le (h : target ≤ x.1.offset) :
    walkBody p (x :: rest) target st = .ok ([], st) := by
  rw [walkBody, if_neg (by omega)]

theorem walkBody_cons_of_mem (h : x.1.offset < target) (hv : x.2 ∈ st.visited) :
    walkBody p (x :: rest) target st = walkBody p rest target st := by
  rw [walkBody, if_pos h, if_pos (by simpa using hv)]

/-- Lines visited before are passed over. -/
theorem walkBody_append_of_mem {xs : List Numbered} (h : ∀ x ∈ xs, x.1.offset < target)
    (hv : ∀ x ∈ xs, x.2 ∈ st.visited) :
    walkBody p (xs ++ rest) target st = walkBody p rest target st := by
  induction xs with
  | nil => rfl
  | cons x xs ih =>
    rw [List.cons_append, walkBody_cons_of_mem (h x List.mem_cons_self) (hv x List.mem_cons_self)]
    exact ih (fun y hy => h y (List.mem_cons_of_mem _ hy))
      (fun y hy => hv y (List.mem_cons_of_mem _ hy))

theorem walkBody_cons_eq_ok (h : x.1.offset < target) (hv : x.2 ∉ st.visited) :
    walkBody p (x :: rest) target st = .ok (ss, st') ↔ ∃ ss1 r st1 more,
      visit p (walkBody p rest) x.1 x.2 st = .ok (ss1, r, st1) ∧
      walkBody p rest target st1 = .ok (more, st') ∧ ss = ss1 ++ more := by
  rw [walkBody, if_pos h, if_neg (by simpa using hv)]
  simp only [bind_eq_ok]
  constructor
  · rintro ⟨⟨ss1, r, st1⟩, h1, ⟨more, st2⟩, h2, h3⟩
    cases h3
    exact ⟨ss1, r, st1, more, h1, h2, rfl⟩
  · rintro ⟨ss1, r, st1, more, h1, h2, rfl⟩
    exact ⟨_, h1, _, h2, rfl⟩

/-- The walk at the top goes on at a line, or ends. -/
def Continues (p : Program) (visits : Nat) (next : Option Nat) (st : State) (more : List Stmt)
    (st' : State) : Prop :=
  match next with
  | none => more = [] ∧ st' = st
  | some i => walk p visits i st = .ok (more, st')

theorem walk_succ_eq_ok {visits index : Nat}
    (h : nextUnvisited st.visited index p.lines.zipIdx = some (x.1, x.2, rest)) :
    walk p (visits + 1) index st = .ok (ss, st') ↔ ∃ ss1 r st1 more,
      visit p (walkBody p rest) x.1 x.2 st = .ok (ss1, r, st1) ∧
      Continues p visits (r.index? x.2) st1 more st' ∧ ss = ss1 ++ more := by
  rw [walk, h]
  simp only [bind_eq_ok]
  constructor
  · rintro ⟨⟨ss1, r, st1⟩, h1, h2⟩
    cases hr : r.index? x.2 with
    | none =>
      simp only [hr] at h2
      cases h2
      exact ⟨ss, r, st', [], h1, by rw [hr]; exact ⟨rfl, rfl⟩, by simp⟩
    | some next =>
      simp only [hr, bind_eq_ok] at h2
      obtain ⟨⟨more, st2⟩, h2, h3⟩ := h2
      cases h3
      exact ⟨ss1, r, st1, more, h1, by rw [hr]; exact h2, rfl⟩
  · rintro ⟨ss1, r, st1, more, h1, h2, rfl⟩
    refine ⟨_, h1, ?_⟩
    cases hr : r.index? x.2 with
    | none =>
      rw [hr] at h2
      obtain ⟨rfl, rfl⟩ := h2
      simp
      rfl
    | some next =>
      rw [hr] at h2
      exact bind_eq_ok.mpr ⟨_, h2, rfl⟩

theorem nextUnvisited_eq_none {visited : List Nat} {index : Nat} {lines : List Numbered}
    (h : ∀ x ∈ lines, x.2 < index ∨ x.2 ∈ visited) :
    nextUnvisited visited index lines = none := by
  induction lines with
  | nil => rfl
  | cons x lines ih =>
    rw [nextUnvisited, if_pos (by simpa using h x List.mem_cons_self)]
    exact ih fun y hy => h y (List.mem_cons_of_mem _ hy)

theorem nextUnvisited_eq_some {visited : List Nat} {index : Nat} {before : List Numbered}
    (h : ∀ x ∈ before, x.2 < index ∨ x.2 ∈ visited) (hi : index ≤ x.2) (hv : x.2 ∉ visited) :
    nextUnvisited visited index (before ++ x :: rest) = some (x.1, x.2, rest) := by
  induction before with
  | nil => rw [List.nil_append, nextUnvisited, if_neg (by simpa using ⟨hi, hv⟩)]
  | cons y before ih =>
    rw [List.cons_append, nextUnvisited, if_pos (by simpa using h y List.mem_cons_self)]
    exact ih fun z hz => h z (List.mem_cons_of_mem _ hz)

end

/-! ## A stretch -/

section

variable {p : Program} {rest : List Numbered} {st : State} {more body : List Stmt}
  {visited visited' : List Nat}

/-- A visit leaves the lines further down unvisited. -/
theorem not_mem_visited_cons {x : Numbered} {lines : List Numbered}
    (hlt : ∀ y ∈ lines, Before x y) (hv : ∀ y ∈ lines, y.2 ∉ visited) :
    ∀ y ∈ lines, y.2 ∉ x.2 :: visited := by
  intro y hy hm
  rcases List.mem_cons.mp hm with he | hm
  · have := (hlt y hy).2
    omega
  · exact hv y hy hm

theorem walkBody_replays {init : List Numbered} {target : Nat} {stack stack' : ValueStack}
    (hr : Replays (init.map (·.1.insn)) stack stack') (ht : ∀ x ∈ init, x.1.offset < target)
    (hp : init.Pairwise Before) (hv : ∀ x ∈ init, x.2 ∉ visited)
    (h : walkBody p rest target ⟨visitsOf init ++ visited, stack'⟩ = .ok (more, st)) :
    walkBody p (init ++ rest) target ⟨visited, stack⟩ =
      .ok (init.flatMap (fun x => p.labelsOf x.1.offset) ++ more, st) := by
  induction init generalizing visited stack with
  | nil =>
    cases hr
    exact h
  | cons x init ih =>
    obtain ⟨hj, stack1, hx, hr⟩ := hr
    obtain ⟨hlt, hp⟩ := List.pairwise_cons.mp hp
    have hfresh := not_mem_visited_cons hlt fun y hy => hv y (List.mem_cons_of_mem _ hy)
    have hrest := ih hr (fun y hy => ht y (List.mem_cons_of_mem _ hy)) hp hfresh
      (by simpa [visitsOf_cons] using h)
    rw [List.cons_append, walkBody_cons_eq_ok (ht x List.mem_cons_self) (hv x List.mem_cons_self)]
    refine ⟨_, _, _, _, visit_plain hj hx, hrest, ?_⟩
    rw [grouped_labelsOf, List.flatMap_cons, List.append_assoc]

/-- A body takes a stretch as a whole. -/
theorem walkBody_stretch {s : Stretch} {target : Nat} {r : Resume}
    (ht : ∀ x ∈ s.lines, x.1.offset < target) (hp : s.lines.Pairwise Before)
    (hv : ∀ x ∈ s.lines, x.2 ∉ visited) (hr : s.finish.resume p s.last.2 = .ok r)
    (hi : s.finish.Inner (walkBody p rest) (visitsOf s.lines ++ visited) body visited')
    (h : walkBody p rest target ⟨visited', []⟩ = .ok (more, st)) :
    walkBody p (s.lines ++ rest) target ⟨visited, []⟩ = .ok (s.emitted p body ++ more, st) := by
  obtain ⟨stack, hreplay, hends⟩ := s.phrase.closed
  rw [Stretch.lines] at ht hp hv hi ⊢
  rw [visitsOf_append] at hi
  obtain ⟨hpi, -, hpl⟩ := List.pairwise_append.mp hp
  have hlast : s.last ∈ s.init ++ [s.last] := by simp
  have hfresh : s.last.2 ∉ visitsOf s.init ++ visited := by
    intro hm
    rcases List.mem_append.mp hm with hm | hm
    · obtain ⟨y, hy, he⟩ := mem_visitsOf.mp hm
      have := (hpl y hy s.last (by simp)).2
      omega
    · exact hv _ hlast hm
  rw [List.append_assoc, Stretch.emitted, List.append_assoc]
  refine walkBody_replays hreplay (fun x hx => ht x (by simp [hx])) hpi
    (fun x hx => hv x (by simp [hx])) ?_
  exact (walkBody_cons_eq_ok (ht _ hlast) hfresh).mpr
    ⟨_, _, _, _, visit_finish hends hr hi, h, rfl⟩

theorem walk_replays {before init : List Numbered} {last : Numbered} {finish : Finish}
    {stack stack' : ValueStack} {index visits : Nat} {r : Resume}
    (hz : p.lines.zipIdx = before ++ (init ++ last :: rest))
    (hreplay : Replays (init.map (·.1.insn)) stack stack') (hends : finish.Ends last.1.insn stack')
    (hp : (init ++ [last]).Pairwise Before) (hv : ∀ x ∈ init ++ [last], x.2 ∉ visited)
    (hb : ∀ x ∈ before, x.2 < index ∨ x.2 ∈ visited) (hx : ∀ x ∈ init ++ [last], index ≤ x.2)
    (hr : finish.resume p last.2 = .ok r)
    (hi : finish.Inner (walkBody p rest) (last.2 :: visitsOf init ++ visited) body visited')
    (h : Continues p visits (r.index? last.2) ⟨visited', []⟩ more st) :
    walk p (visits + (init.length + 1)) index ⟨visited, stack⟩ =
      .ok (init.flatMap (fun x => p.labelsOf x.1.offset) ++
        (grouped (p.labelsOf last.1.offset ++ finish.emitted body) ++ more), st) := by
  induction init generalizing before visited stack index with
  | nil =>
    cases hreplay
    have hnext : nextUnvisited visited index p.lines.zipIdx = some (last.1, last.2, rest) := by
      rw [hz]
      exact nextUnvisited_eq_some hb (hx last (by simp)) (hv last (by simp))
    exact (walk_succ_eq_ok hnext).mpr ⟨_, _, _, _, visit_finish hends hr hi, h, rfl⟩
  | cons x init ih =>
    obtain ⟨hj, stack1, hrun, hreplay⟩ := hreplay
    rw [List.cons_append] at hp hv hx hz
    obtain ⟨hlt, hp⟩ := List.pairwise_cons.mp hp
    have hnext : nextUnvisited visited index p.lines.zipIdx =
        some (x.1, x.2, init ++ last :: rest) := by
      rw [hz]
      exact nextUnvisited_eq_some hb (hx x List.mem_cons_self) (hv x List.mem_cons_self)
    have hfresh := not_mem_visited_cons hlt fun y hy => hv y (List.mem_cons_of_mem _ hy)
    have hbefore : ∀ y ∈ before ++ [x], y.2 < x.2 + 1 ∨ y.2 ∈ x.2 :: visited := by
      intro y hy
      rcases List.mem_append.mp hy with hy | hy
      · rcases hb y hy with hlt' | hm
        · have := hx x List.mem_cons_self
          exact .inl (by omega)
        · exact .inr (List.mem_cons_of_mem _ hm)
      · rw [List.mem_singleton.mp hy]
        exact .inr List.mem_cons_self
    have hrest := ih (by rw [hz]; simp) hreplay hp hfresh hbefore (fun y hy => (hlt y hy).2)
      (by simpa [visitsOf_cons] using hi)
    refine (walk_succ_eq_ok hnext).mpr ⟨_, _, _, _, visit_plain hj hrun, hrest, ?_⟩
    rw [grouped_labelsOf, List.flatMap_cons, List.append_assoc]

/-- The walk at the top takes a stretch as a whole. -/
theorem walk_stretch {s : Stretch} {before : List Numbered} {index visits : Nat} {r : Resume}
    (hz : p.lines.zipIdx = before ++ (s.lines ++ rest)) (hp : s.lines.Pairwise Before)
    (hv : ∀ x ∈ s.lines, x.2 ∉ visited) (hb : ∀ x ∈ before, x.2 < index ∨ x.2 ∈ visited)
    (hx : ∀ x ∈ s.lines, index ≤ x.2) (hr : s.finish.resume p s.last.2 = .ok r)
    (hi : s.finish.Inner (walkBody p rest) (visitsOf s.lines ++ visited) body visited')
    (h : Continues p visits (r.index? s.last.2) ⟨visited', []⟩ more st) :
    walk p (visits + s.lines.length) index ⟨visited, []⟩ =
      .ok (s.emitted p body ++ more, st) := by
  obtain ⟨stack, hreplay, hends⟩ := s.phrase.closed
  rw [Stretch.lines, visitsOf_append] at hi
  rw [Stretch.lines, List.append_assoc] at hz
  rw [Stretch.lines, List.length_append, Stretch.emitted, List.append_assoc]
  exact walk_replays hz hreplay hends hp hv hb hx hr hi h

end

end MapScript
