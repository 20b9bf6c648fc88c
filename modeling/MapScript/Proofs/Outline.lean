import MapScript.Proofs.Phrase
import MapScript.Proofs.Placement

/-!
# Outlines: code as a tree of phrases

A `Stretch` is a phrase in place: lines of a program, of which the last one ends the phrase.  An
`Outline` is a list of stretches where each has a body; only those that end at a branch have
anything in it.

* `o.Laid base index stop next`: the lines of `o` stand one behind the other from `base` up to
  `stop`, and each branch goes to the end of its body.
* Along such an outline conditions go forward and are nested (`Laid.forward`, `Laid.nested`).
-/

namespace MapScript

open Recovery Lowering

/-- A phrase in place. -/
structure Stretch where
  init : List Numbered
  last : Numbered
  finish : Finish
  phrase : Phrase (init.map (·.1.insn)) last.1.insn finish

namespace Stretch

def lines (s : Stretch) : List Numbered := s.init ++ [s.last]

def first (s : Stretch) : Numbered := s.init.headD s.last

def code (s : Stretch) : List Instruction := s.lines.map (·.1.insn)

/-- The offset of the first line. -/
def offset (s : Stretch) : Nat := s.first.1.offset

/-- The offset behind the last line. -/
def behind (s : Stretch) : Nat := s.last.1.offset + s.last.1.insn.width

theorem code_eq (s : Stretch) : s.code = s.init.map (·.1.insn) ++ [s.last.1.insn] := by
  simp [code, lines]

theorem exists_lines_eq (s : Stretch) : ∃ tail, s.lines = s.first :: tail := by
  rw [lines, first]
  cases s.init with
  | nil => exact ⟨[], rfl⟩
  | cons x init => exact ⟨init ++ [s.last], rfl⟩

theorem first_mem (s : Stretch) : s.first ∈ s.lines := by
  obtain ⟨tail, h⟩ := s.exists_lines_eq
  rw [h]
  exact List.mem_cons_self

theorem last_mem (s : Stretch) : s.last ∈ s.lines := by
  simp [lines]

theorem wellFormed (s : Stretch) : ∀ i ∈ s.code, i.wellFormed = true := by
  rw [code_eq]
  exact s.phrase.wellFormed

/-- A phrase placed at an offset and a line number. -/
def place (base index : Nat) {init : List Instruction} {last : Instruction} {finish : Finish}
    (h : Phrase init last finish) : Stretch where
  init := numbered base index init
  last := (⟨base + codeWidth init, last⟩, index + init.length)
  finish := finish
  phrase := by
    rw [map_insn_numbered]
    exact h

section

variable {base index : Nat} {init : List Instruction} {last : Instruction} {finish : Finish}
  (h : Phrase init last finish)

theorem lines_place : (place base index h).lines = numbered base index (init ++ [last]) := by
  rw [numbered_append]
  rfl

theorem code_place : (place base index h).code = init ++ [last] := by
  rw [code, lines_place, map_insn_numbered]

end

/-- A stretch in place starts at its base. -/
theorem offset_eq {s : Stretch} {base index : Nat} (h : s.lines = numbered base index s.code) :
    s.offset = base := by
  obtain ⟨tail, ht⟩ := s.exists_lines_eq
  obtain ⟨i, code, hc⟩ : ∃ i code, s.code = i :: code := ⟨_, _, by rw [Stretch.code, ht]; rfl⟩
  rw [ht, hc, numbered] at h
  rw [Stretch.offset, (List.cons.inj h).1]

theorem behind_eq {s : Stretch} {base index : Nat} (h : s.lines = numbered base index s.code) :
    s.behind = base + codeWidth s.code := by
  rw [code_eq, numbered_append, lines] at h
  have hlast := (List.cons.inj (List.append_inj' h rfl).2).1
  rw [behind, code_eq, codeWidth_append, codeWidth_cons, codeWidth_nil, hlast]
  simp only
  omega

/-- Jumps stand at the end of a stretch only. -/
theorem not_isJump_of_mem_init {s : Stretch} {x : Numbered} (h : x ∈ s.init) :
    x.1.insn.kind.isJump = false := by
  obtain ⟨stack, hr, -⟩ := s.phrase.closed
  have hall : ∀ (code : List Instruction) (s s' : ValueStack), Replays code s s' →
      ∀ i ∈ code, i.kind.isJump = false := by
    intro code
    induction code with
    | nil => simp
    | cons i code ih =>
      rintro s s' ⟨hj, s1, -, hrest⟩ j hm
      rcases List.mem_cons.mp hm with rfl | hm
      · exact hj
      · exact ih s1 s' hrest j hm
  exact hall _ _ _ hr _ (List.mem_map_of_mem h)

/-- The jumps of a stretch are those that it ends in. -/
theorem target?_of_mem {s : Stretch} {x : Numbered} (h : x ∈ s.lines) {t : Nat}
    (ht : x.1.insn.target? = some t) : x = s.last ∧ s.finish.target? = some t := by
  rcases List.mem_append.mp h with hx | hx
  · rw [Instruction.target?_of_not_isJump (not_isJump_of_mem_init hx)] at ht
    cases ht
  · obtain rfl := List.mem_singleton.mp hx
    obtain ⟨stack, -, he⟩ := s.phrase.closed
    refine ⟨rfl, ?_⟩
    cases hf : s.finish with
    | stmts ss =>
      rw [hf] at he
      rw [Instruction.target?_of_not_isJump he.1] at ht
      cases ht
    | goto t' =>
      rw [hf] at he
      rw [← ht, he.2.1]
      rfl
    | branch c t' =>
      rw [hf] at he
      rw [← ht, he.2.1]
      rfl

end Stretch

/-! ## Outlines -/

/-- Stretches with their bodies. -/
inductive Outline
  | nil
  | cons (head : Stretch) (body rest : Outline)

/-- A branch goes to `stop`, the end of its body; other stretches have none. -/
def Finish.Closes (body : Outline) (stop : Nat) : Finish → Prop
  | branch _ t => t = stop
  | _ => body = .nil

namespace Outline

def stretches : Outline → List Stretch
  | nil => []
  | cons s body rest => s :: (body.stretches ++ rest.stretches)

def lines (o : Outline) : List Numbered := o.stretches.flatMap Stretch.lines

def code (o : Outline) : List Instruction := o.lines.map (·.1.insn)

def append : Outline → Outline → Outline
  | nil, o => o
  | cons s body rest, o => cons s body (rest.append o)

@[simp] theorem lines_nil : nil.lines = [] := rfl

@[simp] theorem lines_cons (s : Stretch) (body rest : Outline) :
    (cons s body rest).lines = s.lines ++ (body.lines ++ rest.lines) := by
  simp [lines, stretches]

@[simp] theorem code_nil : nil.code = [] := rfl

@[simp] theorem code_cons (s : Stretch) (body rest : Outline) :
    (cons s body rest).code = s.code ++ (body.code ++ rest.code) := by
  simp [code, Stretch.code]

theorem forall_stretches_cons {P : Stretch → Prop} {s : Stretch} {body rest : Outline} :
    (∀ s' ∈ (cons s body rest).stretches, P s') ↔
      P s ∧ (∀ s' ∈ body.stretches, P s') ∧ ∀ s' ∈ rest.stretches, P s' := by
  rw [stretches, List.forall_mem_cons, List.forall_mem_append]

theorem stretches_append (o o' : Outline) :
    (o.append o').stretches = o.stretches ++ o'.stretches := by
  induction o with
  | nil => rfl
  | cons s body rest _ ih => simp [append, stretches, ih]

theorem code_append (o o' : Outline) : (o.append o').code = o.code ++ o'.code := by
  simp [code, lines, stretches_append]

theorem wellFormed (o : Outline) : ∀ i ∈ o.code, i.wellFormed = true := by
  induction o with
  | nil => simp
  | cons s body rest ihb ihr =>
    intro i hi
    simp only [code_cons, List.mem_append] at hi
    rcases hi with hi | hi | hi
    · exact s.wellFormed i hi
    · exact ihb i hi
    · exact ihr i hi

/-! ## Layout -/

/-- The lines stand one behind the other from `base` to `stop` with numbers from `index` to `next`,
and branches go to the ends of their bodies. -/
inductive Laid : Nat → Nat → Outline → Nat → Nat → Prop
  | nil {base index : Nat} : Laid base index nil base index
  | cons {s : Stretch} {body rest : Outline} {base index stop next mid between : Nat}
      (head : s.lines = numbered base index s.code)
      (inner : Laid (base + codeWidth s.code) (index + s.code.length) body mid between)
      (closes : s.finish.Closes body mid)
      (later : Laid mid between rest stop next) :
      Laid base index (cons s body rest) stop next

namespace Laid

variable {base index stop next mid between : Nat} {o o' : Outline}

theorem append (h : o.Laid base index mid between) (h' : o'.Laid mid between stop next) :
    (o.append o').Laid base index stop next := by
  induction h with
  | nil => exact h'
  | cons head inner closes later _ ih => exact .cons head inner closes (ih h')

theorem end_eq (h : o.Laid base index stop next) :
    stop = base + codeWidth o.code ∧ next = index + o.code.length := by
  induction h with
  | nil => simp
  | cons head inner closes later ihb ihr =>
    obtain ⟨h1, h2⟩ := ihb
    obtain ⟨h3, h4⟩ := ihr
    simp only [code_cons, codeWidth_append, List.length_append]
    omega

theorem lines_eq (h : o.Laid base index stop next) : o.lines = numbered base index o.code := by
  induction h with
  | nil => rfl
  | cons head inner closes later ihb ihr =>
    obtain ⟨h1, h2⟩ := inner.end_eq
    rw [lines_cons, code_cons, numbered_append, numbered_append, ← h1, ← h2, ← ihb, ← ihr,
      ← head]

/-- An outline starts with a stretch unless it is empty. -/
theorem start (h : o.Laid base index stop next) :
    base = stop ∨ ∃ s ∈ o.stretches, s.offset = base := by
  cases h with
  | nil => exact .inl rfl
  | @cons s body rest _ _ _ _ _ _ head inner closes later =>
    exact .inr ⟨s, List.mem_cons_self, Stretch.offset_eq head⟩

/-- A phrase in place, ahead of its body. -/
theorem place {init : List Instruction} {last : Instruction} {finish : Finish}
    (h : Phrase init last finish)
    (inner : o.Laid (base + codeWidth (init ++ [last])) (index + (init ++ [last]).length) stop next)
    (closes : finish.Closes o stop) :
    (Outline.cons (Stretch.place base index h) o .nil).Laid base index stop next := by
  refine .cons ?_ ?_ closes .nil
  · rw [Stretch.lines_place, Stretch.code_place]
  · rw [Stretch.code_place]
    exact inner

end Laid

end Outline

end MapScript
