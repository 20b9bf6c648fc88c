import Mathlib.Data.Finset.Card
import Mathlib.Order.Interval.Finset.Nat
import Mathlib.Data.Prod.Lex
import MapScript.Proofs.Closure

/-!
# The walk ends by itself

The walk at the top takes turns: it passes over the line at its cursor, or visits it and moves the
cursor, which may go back (`turn`).  Each turn leaves fewer lines unvisited, or as many and fewer
lines behind the cursor, so that there is no endless run (`turn_wf`).

`walk` counts visits down from the number of lines.  A run of turns does not, and comes to the same
result (`run_iff`): the count never decides.
-/

namespace MapScript.Structured

/-! ## Turns -/

/-- Where the walk at the top stands. -/
structure Cursor where
  index : Nat
  state : State

/-- The walk halts with a result, or it goes on from a cursor with statements added. -/
inductive Turn
  | halt (result : Except RecoveryError (List Stmt × State))
  | on (stmts : List Stmt) (cursor : Cursor)

/-- One turn: a line that has been visited is passed over, and any other is visited. -/
def turn (p : Program) (c : Cursor) : Turn :=
  match p.lines[c.index]? with
  | none => .halt (.ok ([], c.state))
  | some line =>
    if c.index ∈ c.state.visited then .on [] ⟨c.index + 1, c.state⟩
    else
      match visit p (walkBody p (p.lines.zipIdx.drop (c.index + 1))) line c.index c.state with
      | .error e => .halt (.error e)
      | .ok (stmts, resume, st) =>
        match resume.index? c.index with
        | none => .halt (.ok (stmts, st))
        | some next => .on stmts ⟨next, st⟩

/-- Turns from a cursor up to a halt, and the result of them all. -/
inductive Run (p : Program) : Cursor → Except RecoveryError (List Stmt × State) → Prop
  | halt {c : Cursor} {r : Except RecoveryError (List Stmt × State)} (last : turn p c = .halt r) :
      Run p c r
  | on {c c' : Cursor} {stmts : List Stmt} {r : Except RecoveryError (List Stmt × State)}
      (first : turn p c = .on stmts c') (rest : Run p c' r) :
      Run p c (r.map fun x => (stmts ++ x.1, x.2))

theorem Run.unique {p : Program} {c : Cursor} {r r' : Except RecoveryError (List Stmt × State)}
    (h : Run p c r) (h' : Run p c r') : r = r' := by
  induction h generalizing r' with
  | halt last =>
    cases h' with
    | halt last' => exact Turn.halt.inj (last.symm.trans last')
    | on first' => cases last.symm.trans first'
  | on first rest ih =>
    cases h' with
    | halt last' => cases first.symm.trans last'
    | on first' rest' =>
      cases first.symm.trans first'
      rw [ih rest']

/-! ## There is no endless run -/

/-- How many lines have not been visited. -/
def unvisited (p : Program) (st : State) : Nat :=
  ((Finset.range p.lines.length).filter (· ∉ st.visited)).card

theorem unvisited_lt {p : Program} {st st' : State} {i : Nat} (hi : i < p.lines.length)
    (hv : i ∉ st.visited) (hv' : i ∈ st'.visited) (hsub : ∀ j ∈ st.visited, j ∈ st'.visited) :
    unvisited p st' < unvisited p st := by
  apply Finset.card_lt_card
  rw [Finset.ssubset_iff_of_subset]
  · exact ⟨i, by simp [hi, hv], by simp [hv']⟩
  · intro j hj
    rw [Finset.mem_filter] at hj ⊢
    exact ⟨hj.1, fun hm => hj.2 (hsub j hm)⟩

/-- The line at a cursor stands in front of the lines that its visit hands on. -/
theorem zipIdx_eq {p : Program} {i : Nat} {line : Line} (h : p.lines[i]? = some line) :
    p.lines.zipIdx = p.lines.zipIdx.take i ++ (line, i) :: p.lines.zipIdx.drop (i + 1) := by
  obtain ⟨hi, rfl⟩ := List.getElem?_eq_some_iff.mp h
  have hlen : i < p.lines.zipIdx.length := by simpa using hi
  have hget : p.lines.zipIdx[i] = (p.lines[i], i) := by simp
  rw [← hget, ← List.drop_eq_getElem_cons hlen, List.take_append_drop]

/-- What a visit of the line at a cursor is made of. -/
theorem walked_of_turn {p : Program} {i : Nat} {line : Line} {st st' : State} {ss : List Stmt}
    {r : Resume} (hl : p.lines[i]? = some line) (hv : i ∉ st.visited)
    (h : visit p (walkBody p (p.lines.zipIdx.drop (i + 1))) line i st = .ok (ss, r, st')) :
    ∃ ys, Walked p st ((line, i) :: ys) ss st' := by
  have hrest : ∀ y ∈ p.lines.zipIdx.drop (i + 1), y ∈ p.lines.zipIdx :=
    fun y hy => List.mem_of_mem_drop hy
  exact walked_of_visit (x := (line, i)) (fun _ _ _ _ hb => walked_of_walkBody hrest hb)
    (List.mem_zipIdx_iff_getElem?.mpr hl) hv h

/-- What a turn that goes on does. -/
theorem turn_eq_on {p : Program} {c c' : Cursor} {ss : List Stmt} (h : turn p c = .on ss c') :
    ∃ line, p.lines[c.index]? = some line ∧
      ((c.index ∈ c.state.visited ∧ ss = [] ∧ c' = ⟨c.index + 1, c.state⟩) ∨
        c.index ∉ c.state.visited ∧
          ∃ ys, Walked p c.state ((line, c.index) :: ys) ss c'.state) := by
  unfold turn at h
  split at h
  · cases h
  · next line hl =>
    refine ⟨line, hl, ?_⟩
    split at h
    · next hv =>
      cases h
      exact .inl ⟨hv, rfl, rfl⟩
    · next hv =>
      split at h
      · cases h
      · next stmts resume st hvisit =>
        split at h
        · cases h
        · cases h
          exact .inr ⟨hv, walked_of_turn hl hv hvisit⟩

/-- The lines that are left to visit, and the lines behind the cursor. -/
def rank (p : Program) (c : Cursor) : Nat ×ₗ Nat :=
  toLex (unvisited p c.state, p.lines.length - c.index)

/-- A turn lowers the rank. -/
theorem rank_lt {p : Program} {c c' : Cursor} {ss : List Stmt} (h : turn p c = .on ss c') :
    rank p c' < rank p c := by
  obtain ⟨line, hl, h⟩ := turn_eq_on h
  obtain ⟨hi, -⟩ := List.getElem?_eq_some_iff.mp hl
  unfold rank
  rw [Prod.Lex.toLex_lt_toLex]
  rcases h with ⟨-, -, rfl⟩ | ⟨hv, ys, hw⟩
  · right
    exact ⟨rfl, by show p.lines.length - (c.index + 1) < _; omega⟩
  · left
    have hvisited := hw.traced.visited
    refine unvisited_lt hi hv ?_ fun j hj => ?_
    · rw [hvisited, visitsOf_cons]
      simp
    · rw [hvisited]
      exact List.mem_append_right _ hj

/-- **Turns come to an end**, wherever jumps go. -/
theorem turn_wf (p : Program) : WellFounded fun c' c => ∃ ss, turn p c = .on ss c' :=
  Subrelation.wf (fun ⟨_, h⟩ => rank_lt h) (InvImage.wf (rank p) wellFounded_lt)

/-! ## The count of visits never decides -/

theorem walk_of_nextUnvisited_eq_none {p : Program} {visits index : Nat} {st : State}
    (h : nextUnvisited st.visited index p.lines.zipIdx = none) :
    walk p visits index st = .ok ([], st) := by
  cases visits with
  | zero => rfl
  | succ visits => rw [walk, h]

/-- A line that has been visited may as well be behind. -/
theorem nextUnvisited_succ {visited : List Nat} {index : Nat} (h : index ∈ visited)
    (lines : List Numbered) :
    nextUnvisited visited (index + 1) lines = nextUnvisited visited index lines := by
  induction lines with
  | nil => rfl
  | cons x lines ih =>
    have hx : (x.2 < index + 1 ∨ visited.contains x.2 = true) ↔
        (x.2 < index ∨ visited.contains x.2 = true) := by
      by_cases he : x.2 = index
      · simp [he, h]
      · have : x.2 < index + 1 ↔ x.2 < index := by omega
        rw [this]
    rw [nextUnvisited, nextUnvisited, ih]
    exact if_congr hx rfl rfl

theorem walk_succ_of_mem {p : Program} {visits index : Nat} {st : State}
    (h : index ∈ st.visited) : walk p visits (index + 1) st = walk p visits index st := by
  cases visits with
  | zero => rfl
  | succ visits => rw [walk, walk, nextUnvisited_succ h]

theorem nextUnvisited_of_getElem? {p : Program} {visited : List Nat} {i : Nat} {line : Line}
    (hl : p.lines[i]? = some line) (hv : i ∉ visited) :
    nextUnvisited visited i p.lines.zipIdx = some (line, i, p.lines.zipIdx.drop (i + 1)) := by
  have hbefore : ∀ x ∈ p.lines.zipIdx.take i, x.2 < i ∨ x.2 ∈ visited := by
    intro x hx
    obtain ⟨j, hj, rfl⟩ := List.mem_take_iff_getElem.mp hx
    left
    rw [List.getElem_zipIdx]
    show 0 + j < i
    omega
  rw [zipIdx_eq hl, nextUnvisited_eq_some (x := (line, i)) hbefore (Nat.le_refl i) hv,
    ← zipIdx_eq hl]

/-- With a visit left, the walk takes a turn at a line that has not been visited. -/
theorem walk_of_turn {p : Program} {c : Cursor} {line : Line} (hl : p.lines[c.index]? = some line)
    (hv : c.index ∉ c.state.visited) (visits : Nat) :
    walk p (visits + 1) c.index c.state =
      match turn p c with
      | .halt r => r
      | .on ss c' => (walk p visits c'.index c'.state).map fun x => (ss ++ x.1, x.2) := by
  unfold turn
  simp only [walk, nextUnvisited_of_getElem? hl hv, hl, if_neg hv]
  cases visit p (walkBody p (p.lines.zipIdx.drop (c.index + 1))) line c.index c.state with
  | error e => rfl
  | ok x =>
    obtain ⟨stmts, resume, st⟩ := x
    simp only [bind, Except.bind]
    cases resume.index? c.index with
    | none => rfl
    | some next => cases walk p visits next st <;> rfl

/-- The walk is a run of turns if there are visits left for all lines. -/
theorem run_walk {p : Program} (c : Cursor) {visits : Nat} (hb : Budget p visits c.state) :
    Run p c (walk p visits c.index c.state) := by
  -- the induction is on the turns and not on the visits, since a turn may use up none
  induction c using (turn_wf p).induction generalizing visits with
  | _ c ih =>
    cases hl : p.lines[c.index]? with
    | none =>
      have hnone : nextUnvisited c.state.visited c.index p.lines.zipIdx = none := by
        refine nextUnvisited_eq_none fun x hx => .inl ?_
        have hx := (List.getElem?_eq_some_iff.mp (List.mem_zipIdx_iff_getElem?.mp hx)).1
        have := List.getElem?_eq_none_iff.mp hl
        omega
      rw [walk_of_nextUnvisited_eq_none hnone]
      exact .halt (by rw [turn, hl])
    | some line =>
      obtain ⟨hi, -⟩ := List.getElem?_eq_some_iff.mp hl
      by_cases hv : c.index ∈ c.state.visited
      · have hturn : turn p c = .on [] ⟨c.index + 1, c.state⟩ := by
          rw [turn, hl]
          exact if_pos hv
        have hrun := Run.on hturn (ih _ ⟨_, hturn⟩ hb)
        rw [walk_succ_of_mem hv] at hrun
        cases hw : walk p visits c.index c.state <;> rwa [hw] at hrun
      · obtain ⟨left, rfl⟩ : ∃ v, visits = v + 1 :=
          ⟨visits - 1, by have := hb.pos hi hv; omega⟩
        rw [walk_of_turn hl hv]
        cases hturn : turn p c with
        | halt r => exact .halt hturn
        | on ss c' =>
          obtain ⟨_, -, ⟨hm, -⟩ | ⟨-, ys, hw⟩⟩ := turn_eq_on hturn
          · exact absurd hm hv
          · exact .on hturn (ih c' ⟨ss, hturn⟩ (hb.step hw.traced))

/-- The cursor in front of the first line. -/
def Cursor.start : Cursor := ⟨0, ⟨[], []⟩⟩

/-- **The walk is the run of turns from the start.** -/
theorem run_iff {p : Program} {r : Except RecoveryError (List Stmt × State)} :
    Run p .start r ↔ walk p p.lines.length 0 ⟨[], []⟩ = r := by
  have hrun : Run p .start (walk p p.lines.length 0 ⟨[], []⟩) :=
    run_walk .start ⟨List.nodup_nil, by simp [Cursor.start], by simp [Cursor.start]⟩
  constructor
  · exact fun h => hrun.unique h
  · rintro rfl
    exact hrun

end MapScript.Structured
