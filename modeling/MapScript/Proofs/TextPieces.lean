import MapScript.Text.Blank
import Mathlib.Data.List.Basic

/-!
# The pieces of a text

A text that was put together from pieces has these as its lines (`lines_joined`,
`lines_intercalate`) or, if there are blanks between them, as its words (`words_append`).
-/

namespace MapScript.Text

/-! ## Lines -/

theorem lines_cons {c : Char} (hc : c ≠ '\n') {rest : List Char}
    (hr : c = '\r' → rest.head? ≠ some '\n') :
    lines (c :: rest) =
      match lines rest with
      | [] => [[c]]
      | l :: ls => (c :: l) :: ls := by
  refine lines.eq_4 c rest hc ?_
  rintro _ hreturn rfl
  exact hr hreturn rfl

/-- A line ends at its line feed, or one carriage return before it. -/
theorem exists_lines_append {l : List Char} (h : '\n' ∉ l) (rest : List Char) :
    ∃ l', lines (l ++ '\n' :: rest) = l' :: lines rest ∧ (l = l' ∨ l = l' ++ ['\r']) := by
  induction l with
  | nil => exact ⟨[], rfl, .inl rfl⟩
  | cons c l ih =>
    rw [List.mem_cons, not_or] at h
    obtain ⟨l', hlines, hl'⟩ := ih h.2
    by_cases hreturn : c = '\r' ∧ l = []
    · obtain ⟨rfl, rfl⟩ := hreturn
      exact ⟨[], rfl, .inr rfl⟩
    · refine ⟨c :: l', ?_, hl'.imp (congrArg (c :: ·)) (congrArg (c :: ·))⟩
      rw [List.cons_append, lines_cons (Ne.symm h.1), hlines]
      intro hc hhead
      cases l with
      | nil => exact hreturn ⟨hc, rfl⟩
      | cons d l => exact h.2 (List.mem_of_mem_head? hhead)

theorem lines_of_not_mem {l : List Char} (h : '\n' ∉ l) (hne : l ≠ []) : lines l = [l] := by
  induction l with
  | nil => exact absurd rfl hne
  | cons c l ih =>
    rw [List.mem_cons, not_or] at h
    rw [lines_cons (Ne.symm h.1) fun _ hhead => h.2 (List.mem_of_mem_head? hhead)]
    cases l with
    | nil => rfl
    | cons d l => rw [ih h.2 (List.cons_ne_nil d l)]

/-- No line break, and no part of one. -/
def Unbroken (cs : List Char) : Prop := ∀ c ∈ cs, c ≠ '\n' ∧ c ≠ '\r'

theorem Unbroken.not_mem {cs : List Char} (h : Unbroken cs) : '\n' ∉ cs :=
  fun hmem => (h _ hmem).1 rfl

theorem lines_append_break {l : List Char} (h : Unbroken l) (rest : List Char) :
    lines (l ++ '\n' :: rest) = l :: lines rest := by
  obtain ⟨l', hlines, rfl | rfl⟩ := exists_lines_append h.not_mem rest
  · exact hlines
  · exact absurd rfl (h '\r' List.mem_concat_self).2

theorem lines_joined {init : List (List Char)} {last : List Char} (h : ∀ l ∈ init, Unbroken l)
    (hl : Unbroken last) (hne : last ≠ []) :
    lines (init.flatMap (· ++ ['\n']) ++ last) = init ++ [last] := by
  induction init with
  | nil => exact lines_of_not_mem hl.not_mem hne
  | cons l init ih =>
    rw [List.flatMap_cons, List.append_assoc, List.append_assoc, List.singleton_append,
      lines_append_break (h l List.mem_cons_self),
      ih fun l' hl' => h l' (List.mem_cons_of_mem _ hl')]
    rfl

theorem lines_intercalate {ls : List (List Char)} (h : ∀ l ∈ ls, Unbroken l ∧ l ≠ []) :
    lines (['\n'].intercalate ls) = ls := by
  induction ls with
  | nil => rfl
  | cons l ls ih =>
    obtain ⟨⟨hl, hne⟩, hls⟩ := List.forall_mem_cons.mp h
    cases ls with
    | nil =>
      rw [List.intercalate_singleton]
      exact lines_of_not_mem hl.not_mem hne
    | cons l' ls =>
      rw [List.intercalate_cons_cons, List.append_assoc, List.singleton_append,
        lines_append_break hl, ih hls]

/-! ## Words -/

/-- A word: some characters, none of which is blank. -/
def Solid (w : List Char) : Prop := w ≠ [] ∧ ∀ c ∈ w, isBlank c = false

theorem words_nil : words [] = [] := rfl

theorem words_blank {c : Char} (h : isBlank c = true) (rest : List Char) :
    words (c :: rest) = words rest := by
  rw [words.eq_def]
  exact if_pos h

theorem words_single {c : Char} (h : isBlank c = false) {rest : List Char}
    (hrest : ∀ d ∈ rest.head?, isBlank d = true) : words (c :: rest) = [c] :: words rest := by
  rw [words.eq_def]
  cases rest with
  | nil => simp [h, words_nil]
  | cons d rest => simp [h, hrest d rfl]

theorem words_cons {c d : Char} (hc : isBlank c = false) (hd : isBlank d = false)
    {rest w : List Char} {ws : List (List Char)} (h : words (d :: rest) = w :: ws) :
    words (c :: d :: rest) = (c :: w) :: ws := by
  rw [words.eq_def]
  simp [hc, hd, h]

/-- A word is followed by a blank or by nothing. -/
theorem words_append {w rest : List Char} (hw : Solid w)
    (hrest : ∀ c ∈ rest.head?, isBlank c = true) : words (w ++ rest) = w :: words rest := by
  obtain ⟨hne, hw⟩ := hw
  induction w with
  | nil => exact absurd rfl hne
  | cons c w ih =>
    obtain ⟨hc, hw⟩ := List.forall_mem_cons.mp hw
    cases w with
    | nil => exact words_single hc hrest
    | cons d w => exact words_cons hc (hw d List.mem_cons_self) (ih (List.cons_ne_nil d w) hw)

theorem words_joined {w : List Char} {ws : List (List Char)} (hw : Solid w)
    (hws : ∀ w ∈ ws, Solid w) : words (w ++ ws.flatMap (' ' :: ·)) = w :: ws := by
  induction ws generalizing w with
  | nil => exact words_append hw nofun
  | cons w' ws ih =>
    obtain ⟨hw', hws⟩ := List.forall_mem_cons.mp hws
    have hblank : isBlank ' ' = true := rfl
    rw [List.flatMap_cons, List.cons_append, words_append hw (by simp [hblank]),
      words_blank hblank, ih hw' hws]

theorem words_ne_nil {c : Char} (h : isBlank c = false) (rest : List Char) :
    words (c :: rest) ≠ [] := by
  induction rest generalizing c with
  | nil =>
    rw [words_single h (by simp)]
    exact List.cons_ne_nil _ _
  | cons d rest ih =>
    cases hd : isBlank d with
    | true =>
      rw [words_single h (by simp [hd])]
      exact List.cons_ne_nil _ _
    | false =>
      obtain ⟨w, ws, hws⟩ := List.exists_cons_of_ne_nil (ih hd)
      rw [words_cons h hd hws]
      exact List.cons_ne_nil _ _

/-- Only blank text has no words. -/
theorem words_eq_nil_iff {cs : List Char} : words cs = [] ↔ ∀ c ∈ cs, isBlank c = true := by
  induction cs with
  | nil => simp [words_nil]
  | cons c cs ih =>
    rw [List.forall_mem_cons]
    cases hc : isBlank c with
    | true => simpa [words_blank hc] using ih
    | false => simp [words_ne_nil hc cs]

theorem Solid.unbroken {w : List Char} (h : Solid w) : Unbroken w := by
  have hfeed : isBlank '\n' = true := rfl
  have hreturn : isBlank '\r' = true := rfl
  intro c hc
  have hblank := h.2 c hc
  constructor
  · rintro rfl
    rw [hfeed] at hblank
    cases hblank
  · rintro rfl
    rw [hreturn] at hblank
    cases hblank

theorem unbroken_joined {w : List Char} {ws : List (List Char)} (hw : Solid w)
    (hws : ∀ w ∈ ws, Solid w) : Unbroken (w ++ ws.flatMap (' ' :: ·)) := by
  intro c hc
  rw [List.mem_append, List.mem_flatMap] at hc
  rcases hc with hc | ⟨w', hw', hc⟩
  · exact hw.unbroken c hc
  · rcases List.mem_cons.mp hc with rfl | hc
    · decide
    · exact (hws w' hw').unbroken c hc

end MapScript.Text
