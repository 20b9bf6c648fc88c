import Mathlib.Data.List.Forall2
import Mathlib.Data.Nat.Digits.Defs
import MapScript.Proofs.Naming

/-!
# Which names are known

A name of an entity or a field is known if it stands in the table, or if it is a placeholder with
decimal digits for a number that has no name (`Entity.ofName?_eq_some_iff`,
`Field.ofName?_eq_some_iff`).  Registers have hexadecimal placeholders.  Their digits are read
without a look at what they are first, and reading passes over one plus sign: it is allowed in front
of them, too (`Register.ofName?_eq_some_iff`).
-/

namespace MapScript

/-! ## Numerals -/

namespace Numeral

/-- `c` is the digit `d`, a letter in either case. -/
def IsDigit (base : Nat) (c : Char) (d : Nat) : Prop :=
  d < base ∧ (c = d.digitChar ∨ c = d.digitChar.toUpper)

/-- One or more digits, with the value `n`. -/
def IsNumeral (base : Nat) (cs : List Char) (n : Nat) : Prop :=
  cs ≠ [] ∧ ∃ ds, List.Forall₂ (IsDigit base) cs ds ∧ n = Nat.ofDigits base ds.reverse

theorem IsDigit.digit? {base : Nat} (hb : base ≤ 16) {c : Char} {d : Nat} (h : IsDigit base c d) :
    digit? base c = some d := by
  have hupper : ∀ base ≤ 16, ∀ d < base, Numeral.digit? base d.digitChar.toUpper = some d := by
    decide
  obtain ⟨hd, rfl | rfl⟩ := h
  · exact digit?_digitChar_all base hb d hd
  · exact hupper base hb d hd

/-- A character is known by how far behind the first of a range it stands. -/
theorem exists_eq_ofNat {lo hi c : Char} (h : lo ≤ c ∧ c ≤ hi) :
    ∃ k < hi.toNat - lo.toNat + 1, c.toNat - lo.toNat = k ∧ c = Char.ofNat (lo.toNat + k) := by
  have hlo : lo.toNat ≤ c.toNat := h.1
  have hhi : c.toNat ≤ hi.toNat := h.2
  refine ⟨c.toNat - lo.toNat, by omega, rfl, ?_⟩
  rw [Nat.add_sub_cancel' hlo, Char.ofNat_toNat]

theorem isDigit_of_digit? {base : Nat} {c : Char} {d : Nat} (h : digit? base c = some d) :
    IsDigit base c d := by
  have hdecimal : ∀ k < 10, Char.ofNat ('0'.toNat + k) = k.digitChar := by decide
  have hlower : ∀ k < 6, Char.ofNat ('a'.toNat + k) = (k + 10).digitChar := by decide
  have hupper : ∀ k < 6, Char.ofNat ('A'.toNat + k) = (k + 10).digitChar.toUpper := by decide
  simp only [Numeral.digit?, Option.ite_none_right_eq_some, Option.some.injEq] at h
  obtain ⟨hlt, hd⟩ := h
  rw [hd] at hlt
  refine ⟨hlt, ?_⟩
  split at hd
  · next hc =>
    obtain ⟨k, hk, he, rfl⟩ := exists_eq_ofNat hc
    rw [he] at hd
    exact .inl (by rw [hdecimal k hk, hd])
  · split at hd
    · next hc =>
      obtain ⟨k, hk, he, rfl⟩ := exists_eq_ofNat hc
      rw [he] at hd
      exact .inl (by rw [hlower k hk, hd])
    · split at hd
      · next hc =>
        obtain ⟨k, hk, he, rfl⟩ := exists_eq_ofNat hc
        rw [he] at hd
        exact .inr (by rw [hupper k hk, hd])
      · omega

theorem readDigits_eq_ok_iff {base limit acc n : Nat} (hb : base ≤ 16) (hpos : 0 < base)
    (hacc : acc < limit) {cs : List Char} :
    readDigits base limit acc cs = .ok n ↔ n < limit ∧ ∃ ds, List.Forall₂ (IsDigit base) cs ds ∧
      n = acc * base ^ ds.length + Nat.ofDigits base ds.reverse := by
  induction cs generalizing acc with
  | nil =>
    simp only [readDigits, Except.ok.injEq, List.forall₂_nil_left_iff]
    constructor
    · rintro rfl
      exact ⟨hacc, [], rfl, by simp⟩
    · rintro ⟨-, _, rfl, rfl⟩
      simp
  | cons c cs ih =>
    have hvalue (d : Nat) (ds : List Nat) :
        acc * base ^ (d :: ds).length + Nat.ofDigits base (d :: ds).reverse =
          (acc * base + d) * base ^ ds.length + Nat.ofDigits base ds.reverse := by
      rw [Nat.ofDigits_reverse_cons, List.length_cons]
      ring
    rw [readDigits]
    constructor
    · intro h
      split at h
      · cases h
      · next d hd =>
        split at h
        · next hlt =>
          obtain ⟨hn, ds, hds, he⟩ := (ih hlt).mp h
          exact ⟨hn, d :: ds, .cons (isDigit_of_digit? hd) hds, by rw [hvalue, he]⟩
        · cases h
    · rintro ⟨hn, _, hds, he⟩
      obtain ⟨d, ds, hd, hds', rfl⟩ := List.forall₂_cons_left_iff.mp hds
      rw [hvalue] at he
      have hlt : acc * base + d < limit := by
        have hle := Nat.le_mul_of_pos_right (acc * base + d) (Nat.pow_pos (n := ds.length) hpos)
        omega
      rw [hd.digit? hb]
      simp only [hlt, if_true]
      exact (ih hlt).mpr ⟨hn, ds, hds', he⟩

theorem digit?_plus (base : Nat) : digit? base '+' = none := by
  unfold digit?
  simp

theorem read_eq_ok_iff {base limit n : Nat} {cs : List Char} : read base limit cs = .ok n ↔
    ∃ digits, (cs = digits ∨ cs = '+' :: digits) ∧ digits ≠ [] ∧
      readDigits base limit 0 digits = .ok n := by
  have hplus (rest : List Char) : readDigits base limit 0 ('+' :: rest) ≠ .ok n := by
    intro h
    rw [readDigits, digit?_plus] at h
    cases h
  constructor
  · intro h
    unfold read at h
    split at h
    · cases h
    · cases h
    · next digits hne => exact ⟨digits, .inr rfl, hne, h⟩
    · next hne _ _ => exact ⟨cs, .inl rfl, hne, h⟩
  · rintro ⟨digits, rfl | rfl, hne, h⟩
    · unfold read
      split
      · exact absurd rfl hne
      · exact absurd h (hplus _)
      · exact absurd h (hplus _)
      · exact h
    · unfold read
      split
      · next he => cases he
      · next he =>
        cases he
        exact absurd rfl hne
      · next he =>
        cases he
        exact h
      · next he => exact absurd rfl (he _)

/-- A word is read off digits of a value below `0x10000`, with one plus sign in front or none. -/
theorem readWord_eq_ok_iff {base : Nat} (hb : base ≤ 16) (hpos : 0 < base) {cs : List Char}
    {v : UInt16} : readWord base cs = .ok v ↔
      ∃ digits, (cs = digits ∨ cs = '+' :: digits) ∧ IsNumeral base digits v.toNat := by
  have hmap : readWord base cs = .ok v ↔ read base 0x10000 cs = .ok v.toNat := by
    rw [readWord]
    cases hr : read base 0x10000 cs with
    | error e => simp [Except.map]
    | ok n =>
      obtain ⟨digits, -, -, hd⟩ := read_eq_ok_iff.mp hr
      have hn : n < 0x10000 := ((readDigits_eq_ok_iff hb hpos (by omega)).mp hd).1
      simp [Except.map, ← UInt16.toNat_inj, Nat.mod_eq_of_lt hn]
  have hvalue (digits : List Char) : readDigits base 0x10000 0 digits = .ok v.toNat ↔
      ∃ ds, List.Forall₂ (IsDigit base) digits ds ∧ v.toNat = Nat.ofDigits base ds.reverse := by
    rw [readDigits_eq_ok_iff hb hpos (by omega), and_iff_right v.toNat_lt]
    simp
  simp only [hmap, read_eq_ok_iff, hvalue, IsNumeral]

theorem IsDigit.isDigit {c : Char} {d : Nat} (h : IsDigit 10 c d) : c.isDigit = true := by
  have hall : ∀ d < 10, d.digitChar.isDigit = true ∧ d.digitChar.toUpper.isDigit = true := by
    decide
  obtain ⟨hd, rfl | rfl⟩ := h
  · exact (hall d hd).1
  · exact (hall d hd).2

/-- A decimal numeral has no sign. -/
theorem IsNumeral.isDigits {cs : List Char} {n : Nat} (h : IsNumeral 10 cs n) :
    isDigits cs = true := by
  obtain ⟨hne, ds, hds, -⟩ := h
  have hall : ∀ c ∈ cs, c.isDigit = true := by
    clear hne
    induction hds with
    | nil => simp
    | cons hd _ ih => exact List.forall_mem_cons.mpr ⟨hd.isDigit, ih⟩
  simpa [Numeral.isDigits, hne] using hall

/-- No numeral has a plus sign. -/
theorem not_isNumeral_plus {base n : Nat} (hb : base ≤ 16) {cs : List Char} :
    ¬ IsNumeral base ('+' :: cs) n := by
  rintro ⟨-, ds, hds, -⟩
  obtain ⟨d, _, hd, -, -⟩ := List.forall₂_cons_left_iff.mp hds
  have hsome := hd.digit? hb
  rw [digit?_plus] at hsome
  cases hsome

end Numeral

/-! ## Placeholders -/

namespace Symbol

open Numeral

theorem placeholderDigits?_eq_some_iff {s : String} {cs : List Char} :
    placeholderDigits? s = some cs ↔ s = placeholder (String.ofList cs) := by
  rw [placeholderDigits?, List.isPrefixOf?_eq_some_iff_append_eq, placeholder, ← String.toList_inj,
    String.toList_append, String.toList_ofList, String.toList_ofList, eq_comm]

/-- A placeholder with digits for the number `id`. -/
def IsPlaceholder (base : Nat) (s : String) (id : UInt16) : Prop :=
  ∃ cs, s = placeholder (String.ofList cs) ∧ IsNumeral base cs id.toNat

/-- A placeholder with a plus sign in front of its digits. -/
def IsSignedPlaceholder (base : Nat) (s : String) (id : UInt16) : Prop :=
  ∃ cs, s = placeholder (String.ofList ('+' :: cs)) ∧ IsNumeral base cs id.toNat

theorem placeholder_inj {cs cs' : List Char}
    (h : placeholder (String.ofList cs) = placeholder (String.ofList cs')) : cs = cs' :=
  Option.some.inj ((placeholderDigits?_eq_some_iff.mpr rfl).symm.trans
    (placeholderDigits?_eq_some_iff.mpr h))

theorem IsSignedPlaceholder.not_isPlaceholder {s : String} {id : UInt16}
    (h : IsSignedPlaceholder 16 s id) : ¬ IsPlaceholder 16 s id := by
  obtain ⟨cs, rfl, -⟩ := h
  rintro ⟨cs', he, hn⟩
  rw [← placeholder_inj he] at hn
  exact not_isNumeral_plus (by omega) hn

theorem decimalPlaceholder?_eq_some_iff {s : String} {id : UInt16} :
    decimalPlaceholder? s = some id ↔ IsPlaceholder 10 s id := by
  have hread (cs : List Char) : (readWord 10 cs).toOption = some id ↔ readWord 10 cs = .ok id := by
    cases readWord 10 cs <;> simp [Except.toOption]
  unfold decimalPlaceholder?
  constructor
  · intro h
    split at h
    · cases h
    · next cs hcs =>
      split at h
      · next hdigits =>
        obtain ⟨digits, rfl | rfl, hn⟩ :=
          (readWord_eq_ok_iff (by omega) (by omega)).mp ((hread cs).mp h)
        · exact ⟨cs, placeholderDigits?_eq_some_iff.mp hcs, hn⟩
        · simp [isDigits] at hdigits
      · cases h
  · rintro ⟨cs, hs, hn⟩
    simp only [placeholderDigits?_eq_some_iff.mpr hs, hn.isDigits, if_true, hread]
    exact (readWord_eq_ok_iff (by omega) (by omega)).mpr ⟨cs, .inl rfl, hn⟩

theorem decimalPlaceholder?_decimal (id : UInt16) :
    decimalPlaceholder? (placeholder (decimal id.toNat)) = some id := by
  have hdigits : isDigits (decimal id.toNat).toList = true := by
    rw [decimal, String.toList_ofList]
    simpa [isDigits, Nat.toDigits_ne_nil] using fun c => isDigit_of_mem_toDigits
  rw [decimalPlaceholder?, placeholderDigits?_placeholder]
  simp only [hdigits, if_true, readWord_decimal]
  rfl

/-- A number is written by its name, or by a placeholder if it has none. -/
theorem named_or_placeholder (named? : UInt16 → Option String) (id : UInt16) :
    named? id = some ((named? id).getD (placeholder (decimal id.toNat))) ∨ named? id = none ∧
      IsPlaceholder 10 ((named? id).getD (placeholder (decimal id.toNat))) id := by
  rw [← decimalPlaceholder?_eq_some_iff]
  cases named? id with
  | some s => exact .inl rfl
  | none => exact .inr ⟨rfl, decimalPlaceholder?_decimal id⟩

/-- A number that is read off a placeholder counts if it has no name. -/
theorem unnamed_eq_some_iff {α : Type} {named? : UInt16 → Option α} {v id : UInt16} :
    (if (named? v).isNone then some v else none) = some id ↔ named? id = none ∧ v = id := by
  rw [Option.ite_none_right_eq_some, Option.some.injEq, Option.isNone_iff_eq_none]
  constructor
  · rintro ⟨h, rfl⟩
    exact ⟨h, rfl⟩
  · rintro ⟨h, rfl⟩
    exact ⟨h, rfl⟩

/-! ## Entities -/

namespace Entity

theorem named?_of_mem (x : UInt16 × String) (hx : x ∈ named) : named? x.1 = some x.2 := by
  have hchain : (named.map Prod.fst).IsChain (· < ·) := by decide
  exact lookup_eq_some_of_nodup (hchain.pairwise.imp UInt16.ne_of_lt) hx

/-- The table knows a name and its number by each other. -/
theorem find?_eq_some_iff {s : String} {id : UInt16} :
    (named.find? (·.2 == s)).map (·.1) = some id ↔ named? id = some s := by
  constructor
  · intro h
    obtain ⟨⟨id', name⟩, hfind, rfl⟩ := Option.map_eq_some_iff.mp h
    obtain rfl : name = s := by simpa using List.find?_some hfind
    exact named?_of_mem _ (List.mem_of_find?_eq_some hfind)
  · intro h
    have hname := ofName?_named h
    rw [ofName?] at hname
    cases hfind : named.find? (·.2 == s) with
    | none =>
      obtain ⟨before, after, he, -⟩ := List.lookup_eq_some_iff.mp h
      exact absurd (List.find?_eq_none.mp hfind (id, s) (by simp [he])) (by simp)
    | some x =>
      rw [hfind] at hname
      exact hname

/-- An entity is known by its name in the table, or by a decimal placeholder if it has none. -/
theorem ofName?_eq_some_iff {s : String} {id : UInt16} : ofName? s = some id ↔
    named? id = some s ∨ named? id = none ∧ IsPlaceholder 10 s id := by
  rw [← find?_eq_some_iff, ← decimalPlaceholder?_eq_some_iff, ofName?]
  cases hfind : named.find? (·.2 == s) with
  | none =>
    cases decimalPlaceholder? s with
    | none => simp
    | some v =>
      simp only [unnamed_eq_some_iff, Option.map_none, Option.some.injEq, reduceCtorEq, false_or]
  | some x =>
    obtain rfl : x.2 = s := by simpa using List.find?_some hfind
    have hnone := placeholderDigits?_of_names names_named (List.mem_of_find?_eq_some hfind)
    simp [decimalPlaceholder?, hnone]

theorem ofName?_name (id : UInt16) : ofName? (name id) = some id :=
  ofName?_eq_some_iff.mpr (named_or_placeholder named? id)

end Entity

/-! ## Fields -/

namespace Field

/-- The table knows a name and its number by each other. -/
theorem findIdx?_eq_some_iff {s : String} {id : UInt16} :
    (names.findIdx? (· == s)).map UInt16.ofNat = some id ↔ named? id = some s := by
  have hlength : names.length < 0x10000 := by decide
  constructor
  · intro h
    obtain ⟨i, hfind, rfl⟩ := Option.map_eq_some_iff.mp h
    obtain ⟨hi, hs, -⟩ := List.findIdx?_eq_some_iff_getElem.mp hfind
    rw [named?, UInt16.toNat_ofNat_of_lt' (by simp [UInt16.size]; omega)]
    exact List.getElem?_eq_some_iff.mpr ⟨hi, by simpa using hs⟩
  · intro h
    have hname := ofName?_named h
    rw [ofName?] at hname
    cases hfind : names.findIdx? (· == s) with
    | none =>
      have hmem : s ∈ names := List.mem_of_getElem? h
      exact absurd (List.findIdx?_eq_none_iff.mp hfind s hmem) (by simp)
    | some i =>
      rw [hfind] at hname
      exact hname

/-- A field is known by its name in the table, or by a decimal placeholder if it has none. -/
theorem ofName?_eq_some_iff {s : String} {id : UInt16} : ofName? s = some id ↔
    named? id = some s ∨ named? id = none ∧ IsPlaceholder 10 s id := by
  rw [← findIdx?_eq_some_iff, ← decimalPlaceholder?_eq_some_iff, ofName?]
  cases hfind : names.findIdx? (· == s) with
  | none =>
    cases decimalPlaceholder? s with
    | none => simp
    | some v =>
      simp only [unnamed_eq_some_iff, Option.map_none, Option.some.injEq, reduceCtorEq, false_or]
  | some i =>
    obtain ⟨hi, hs, -⟩ := List.findIdx?_eq_some_iff_getElem.mp hfind
    obtain rfl : names[i] = s := by simpa using hs
    have hnone : placeholderDigits? names[i] = none :=
      placeholderDigits?_of_names names_names (List.getElem_mem hi)
    simp [decimalPlaceholder?, hnone]

theorem ofName?_name (id : UInt16) : ofName? (name id) = some id :=
  ofName?_eq_some_iff.mpr (named_or_placeholder named? id)

end Field

/-! ## Registers -/

namespace Register

theorem named?_of_mem (r : Named) (hr : r ∈ named) : named? r.id = some r := by
  have hchain : (named.map Named.id).IsChain (· < ·) := by decide
  exact find?_eq_some_of_nodup (hchain.pairwise.imp UInt16.ne_of_lt) hr

/-- The table knows a name with its width and the number by each other. -/
theorem find?_eq_some_iff {s : String} {id : UInt16} {width : Width} :
    (named.find? (·.name == s)).map (fun r => (r.id, r.width)) = some (id, width) ↔
      named? id = some ⟨id, s, width⟩ := by
  constructor
  · intro h
    obtain ⟨r, hfind, he⟩ := Option.map_eq_some_iff.mp h
    obtain rfl : r.name = s := by simpa using List.find?_some hfind
    cases he
    exact named?_of_mem r (List.mem_of_find?_eq_some hfind)
  · intro h
    have hname := ofName?_name h
    rw [ofName?] at hname
    cases hfind : named.find? (·.name == s) with
    | none => exact absurd (List.find?_eq_none.mp hfind _ (List.mem_of_find?_eq_some h)) (by simp)
    | some r =>
      rw [hfind] at hname
      exact hname

/-- The digits of a placeholder are read with a plus sign in front of them or without. -/
theorem readWord_placeholderDigits?_iff {s : String} {id : UInt16} :
    (∃ digits, placeholderDigits? s = some digits ∧ readWord 16 digits = .ok id) ↔
      IsPlaceholder 16 s id ∨ IsSignedPlaceholder 16 s id := by
  simp only [placeholderDigits?_eq_some_iff, readWord_eq_ok_iff (show 16 ≤ 16 by omega)
    (show 0 < 16 by omega)]
  constructor
  · rintro ⟨_, rfl, cs, rfl | rfl, hn⟩
    · exact .inl ⟨_, rfl, hn⟩
    · exact .inr ⟨cs, rfl, hn⟩
  · rintro (⟨cs, hs, hn⟩ | ⟨cs, hs, hn⟩)
    · exact ⟨cs, hs, cs, .inl rfl, hn⟩
    · exact ⟨'+' :: cs, hs, cs, .inr rfl, hn⟩

/-- A register is known by its name in the table, or by a hexadecimal placeholder if it has none.
The digits of a placeholder may have a plus sign in front of them. -/
theorem ofName?_eq_some_iff {s : String} {id : UInt16} {width : Width} :
    ofName? s = some (id, width) ↔ named? id = some ⟨id, s, width⟩ ∨
      width = .byte ∧ named? id = none ∧
        (IsPlaceholder 16 s id ∨ IsSignedPlaceholder 16 s id) := by
  rw [← find?_eq_some_iff, ← readWord_placeholderDigits?_iff, ofName?]
  cases hfind : named.find? (·.name == s) with
  | none =>
    cases placeholderDigits? s with
    | none => simp
    | some digits =>
      cases hread : readWord 16 digits with
      | error _ => simp [hread]
      | ok v =>
        simp only [hread, Option.ite_none_right_eq_some, Option.isNone_iff_eq_none,
          Option.some.injEq, Prod.mk.injEq, Except.ok.injEq, exists_eq_left', Option.map_none,
          reduceCtorEq, false_or]
        constructor
        · rintro ⟨h, rfl, rfl⟩
          exact ⟨rfl, h, rfl⟩
        · rintro ⟨rfl, h, rfl⟩
          exact ⟨h, rfl, rfl⟩
  | some r =>
    obtain rfl : r.name = s := by simpa using List.find?_some hfind
    have hnone := placeholderDigits?_of_names names_named (List.mem_of_find?_eq_some hfind)
    simp [hnone]

example : ofName? "unknown_5" = some (5, .byte) ∧ ofName? "unknown_+5" = some (5, .byte) := by
  decide +kernel

end Register

/-- **A name is known if it stands in the table, or if it is a placeholder with digits for a number
that has no name**, except that the placeholder of a register may also have a plus sign in front of
its digits: exactly there the rule for registers breaks.  What is written for a number, named or
not, is read back as the number. -/
theorem known_names (s : String) (id : UInt16) (width : Width) :
    (Entity.ofName? s = some id ↔
      Entity.named? id = some s ∨ Entity.named? id = none ∧ IsPlaceholder 10 s id) ∧
    (Field.ofName? s = some id ↔
      Field.named? id = some s ∨ Field.named? id = none ∧ IsPlaceholder 10 s id) ∧
    (Register.ofName? s = some (id, width) ↔ Register.named? id = some ⟨id, s, width⟩ ∨
      width = .byte ∧ Register.named? id = none ∧
        (IsPlaceholder 16 s id ∨ IsSignedPlaceholder 16 s id)) ∧
    ((Register.ofName? s = some (id, width) ↔ Register.named? id = some ⟨id, s, width⟩ ∨
        width = .byte ∧ Register.named? id = none ∧ IsPlaceholder 16 s id) ↔
      ¬ (width = .byte ∧ Register.named? id = none ∧ IsSignedPlaceholder 16 s id)) ∧
    Entity.ofName? (Entity.name id) = some id ∧ Field.ofName? (Field.name id) = some id ∧
    (Register.named? id = none → Register.ofName? (Register.placeholder id) = some (id, .byte)) := by
  refine ⟨Entity.ofName?_eq_some_iff, Field.ofName?_eq_some_iff, Register.ofName?_eq_some_iff, ?_,
    Entity.ofName?_name id, Field.ofName?_name id, Register.ofName?_placeholder⟩
  rw [Register.ofName?_eq_some_iff]
  constructor
  · rintro h ⟨hw, hnone, hs⟩
    rcases h.mp (.inr ⟨hw, hnone, .inr hs⟩) with hnamed | ⟨-, -, hp⟩
    · rw [hnone] at hnamed
      cases hnamed
    · exact hs.not_isPlaceholder hp
  · intro h
    constructor
    · rintro (hnamed | ⟨hw, hnone, hp | hs⟩)
      · exact .inl hnamed
      · exact .inr ⟨hw, hnone, hp⟩
      · exact absurd ⟨hw, hnone, hs⟩ h
    · rintro (hnamed | ⟨hw, hnone, hp⟩)
      · exact .inl hnamed
      · exact .inr ⟨hw, hnone, .inl hp⟩

end Symbol

end MapScript
