import MapScript.Token.Scan
import Mathlib.Data.List.Forall2
import Mathlib.Data.List.Pairwise

/-!
# Facts about tables of names

What all names in a table have in common is evaluated for the whole table at once (`Names`).
Evaluation is slow in taking a text apart and in comparing two texts.  So the characters of the
names are given beside the table (`of_forall₂_toList`), where a literal is the list of its
characters by definition, and names are compared as numbers (`charsNumber`).

A row is found by its key if no two rows have the same (`find?_eq_some_of_nodup`,
`lookup_eq_some_of_nodup`, `findFinIdx?_eq_some_of_nodup`), so it is found by its name.
-/

namespace MapScript

open Token

/-! ## Keys -/

/-- The characters of a text as the digits of a number. -/
def charsNumber (cs : List Char) : Nat := cs.foldl (fun n c => n * 0x200000 + c.toNat) 0

/-- Whether no two of the numbers are the same. -/
def allDistinct : List Nat → Bool
  | [] => true
  | n :: ns => ns.all (fun m => !Nat.beq n m) && allDistinct ns

theorem nodup_of_allDistinct {ns : List Nat} (h : allDistinct ns = true) : ns.Nodup := by
  induction ns with
  | nil => exact List.nodup_nil
  | cons n ns ih =>
    rw [allDistinct, Bool.and_eq_true] at h
    refine List.nodup_cons.mpr ⟨fun hmem => ?_, ih h.2⟩
    have hne := List.all_eq_true.mp h.1 n hmem
    simp at hne

/-- Keys are distinct if their numbers are. -/
theorem nodup_map_of_allDistinct {α β : Type} {l : List α} {key : α → β} (number : β → Nat)
    (h : allDistinct (l.map fun a => number (key a)) = true) : (l.map key).Nodup := by
  have hnodup : ((l.map key).map number).Nodup := by
    rw [List.map_map]
    exact nodup_of_allDistinct h
  exact List.Pairwise.of_map number (fun _ _ hne he => hne (congrArg number he)) hnodup

theorem find?_eq_some_of_nodup {α β : Type} [BEq β] [LawfulBEq β] {l : List α} {key : α → β}
    (h : (l.map key).Nodup) {a : α} (ha : a ∈ l) : l.find? (fun b => key b == key a) = some a := by
  induction l with
  | nil => cases ha
  | cons b l ih =>
    rw [List.map_cons, List.nodup_cons] at h
    rcases List.mem_cons.mp ha with rfl | ha
    · simp
    · have hne : key b ≠ key a := fun he => h.1 (he ▸ List.mem_map_of_mem ha)
      rw [List.find?_cons_of_neg (by simpa using hne), ih h.2 ha]

theorem lookup_eq_some_of_nodup {α β : Type} [BEq α] [LawfulBEq α] {l : List (α × β)}
    (h : (l.map Prod.fst).Nodup) {a : α} {b : β} (ha : (a, b) ∈ l) : l.lookup a = some b := by
  obtain ⟨before, after, rfl⟩ := List.append_of_mem ha
  refine List.lookup_eq_some_iff.mpr ⟨before, after, rfl, fun p hp => ?_⟩
  rw [List.map_append, List.map_cons, List.nodup_append] at h
  exact bne_iff_ne.mpr (h.2.2 _ (List.mem_map_of_mem hp) _ List.mem_cons_self).symm

/-- Among the rows with `p`, a row is found by what only rows with its key have. -/
theorem findFinIdx?_eq_some_of_nodup_filter {α β : Type} {l : List α} {p q : α → Bool} {key : α → β}
    (h : ((l.filter p).map key).Nodup) {i : Fin l.length} (hi : q (l.get i) = true)
    (hq : ∀ a, q a = true → p a = true ∧ key a = key (l.get i)) : l.findFinIdx? q = some i := by
  have hpairs : l.Pairwise fun a b => p a = true → p b = true → key a ≠ key b := by
    rwa [List.Nodup, List.pairwise_map, List.pairwise_filter] at h
  refine List.findFinIdx?_eq_some_iff.mpr ⟨hi, fun j hj hqj => ?_⟩
  exact hpairs.rel_get_of_lt hj (hq _ hqj).1 (hq _ hi).1 (hq _ hqj).2

theorem findFinIdx?_eq_some_of_nodup {α β : Type} {l : List α} {q : α → Bool} {key : α → β}
    (h : (l.map key).Nodup) {i : Fin l.length} (hi : q (l.get i) = true)
    (hq : ∀ a, q a = true → key a = key (l.get i)) : l.findFinIdx? q = some i := by
  rw [← List.filter_true l] at h
  exact findFinIdx?_eq_some_of_nodup_filter h hi fun a ha => ⟨rfl, hq a ha⟩

/-! ## Names -/

/-- Whether characters are a word and no keyword. -/
def Token.isPlainWord : List Char → Bool
  | [] => false
  | c :: cs => isWordStart c && cs.all isWordChar &&
    (Lexeme.keywords.map fun k => charsNumber k.1.toList).all fun n =>
      !Nat.beq n (charsNumber (c :: cs))

theorem Token.lookup_keywords_of_isPlainWord {s : String} (h : isPlainWord s.toList = true) :
    Lexeme.keywords.lookup s = none := by
  rw [List.lookup_eq_none_iff]
  intro k hk
  rw [bne_iff_ne]
  rintro rfl
  cases hcs : k.1.toList with
  | nil =>
    rw [hcs] at h
    cases h
  | cons c cs =>
    rw [hcs, isPlainWord, Bool.and_eq_true, List.all_eq_true] at h
    have hne := h.2 _ (List.mem_map_of_mem hk)
    simp [hcs] at hne

/-- The rows of a table are told apart by their names.  These are words, no keywords, and do not
start like the names of what has no row. -/
structure Names {α : Type} (stem : String) (name : α → String) (rows : List α) : Prop where
  nodup : (rows.map name).Nodup
  isPlainWord : ∀ a ∈ rows, isPlainWord (name a).toList = true
  apart : ∀ a ∈ rows, stem.toList.isPrefixOf? (name a).toList = none

/-- Whether the rows of a table, with the characters of their names, are told apart by them. -/
def areNames {α : Type} (stem : String) (rows : List (α × List Char)) : Bool :=
  allDistinct (rows.map fun r => charsNumber r.2) &&
    rows.all fun r => isPlainWord r.2 && (stem.toList.isPrefixOf? r.2).isNone

section

variable {α : Type} {name : α → String} {rows : List α}

/-- Rows are checked with the characters of their names at hand. -/
theorem of_forall₂_toList {check : List (α × List Char) → Bool} {css : List (List Char)}
    (hcss : List.Forall₂ (fun a cs => (name a).toList = cs) rows css)
    (hcheck : check (rows.zip css) = true) :
    check (rows.map fun a => (a, (name a).toList)) = true := by
  have hzip : rows.map (fun a => (a, (name a).toList)) = rows.zip css := by
    clear hcheck
    induction hcss with
    | nil => rfl
    | cons hcs _ ih => rw [List.map_cons, List.zip_cons_cons, hcs, ih]
  rwa [hzip]

/-- The characters need not be written out: they are found by unification where each name is a
literal. -/
theorem Names.of_toList {stem : String} {css : List (List Char)}
    (hcss : List.Forall₂ (fun a cs => (name a).toList = cs) rows css)
    (hcheck : areNames stem (rows.zip css) = true) : Names stem name rows := by
  have hnames := of_forall₂_toList hcss hcheck
  simp only [areNames, Bool.and_eq_true, List.map_map, List.all_map, List.all_eq_true,
    Function.comp_apply, Option.isNone_iff_eq_none] at hnames
  obtain ⟨hnodup, hrows⟩ := hnames
  exact ⟨nodup_map_of_allDistinct (fun s => charsNumber s.toList) hnodup,
    fun a ha => (hrows a ha).1, fun a ha => (hrows a ha).2⟩

theorem Names.find?_eq_some {stem : String} (h : Names stem name rows) {a : α} (ha : a ∈ rows) :
    rows.find? (fun b => name b == name a) = some a :=
  find?_eq_some_of_nodup h.nodup ha

theorem Names.findFinIdx?_eq_some {stem : String} (h : Names stem name rows)
    (i : Fin rows.length) : rows.findFinIdx? (fun b => name b == name (rows.get i)) = some i :=
  findFinIdx?_eq_some_of_nodup h.nodup (beq_self_eq_true _) fun _ hb => beq_iff_eq.mp hb

end

end MapScript
