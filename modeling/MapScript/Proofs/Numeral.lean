import MapScript.Numeral

/-!
# Numerals are read back

Reading the digits of a number gives the number, also behind zeros that fill a column:

    n < limit → readDigits base limit 0 (Nat.toDigits base n) = .ok n      (readDigits_toDigits)
    readWord 16 (hexPadded width n) = .ok n                                 (readWord_hexPadded)
    readWord 16 (hexUpper width n) = .ok n                                  (readWord_hexUpper)

So `decimal` and `hex` are injective, on which the names of labels rest.
-/

namespace MapScript.Numeral

theorem digit?_digitChar_all : ∀ base ≤ 16, ∀ d < base, digit? base d.digitChar = some d := by
  decide

theorem digitChar_ne_plus : ∀ d < 16, d.digitChar ≠ '+' := by
  decide

theorem readDigits_append (base limit acc : Nat) (xs ys : List Char) :
    readDigits base limit acc (xs ++ ys) =
      (readDigits base limit acc xs).bind fun v => readDigits base limit v ys := by
  induction xs generalizing acc with
  | nil => rfl
  | cons c xs ih =>
    simp only [List.cons_append, readDigits]
    cases digit? base c with
    | none => rfl
    | some d =>
      simp only
      split
      · exact ih _
      · rfl

/-- Reading the digits of a number gives the number. -/
theorem readDigits_toDigits {base limit n : Nat} (h1 : 1 < base) (h16 : base ≤ 16)
    (hn : n < limit) : readDigits base limit 0 (Nat.toDigits base n) = .ok n := by
  induction n using Nat.strongRecOn with
  | _ n ih =>
    rcases Nat.lt_or_ge n base with hlt | hge
    · rw [Nat.toDigits_of_lt_base hlt]
      simp [readDigits, digit?_digitChar_all base h16 n hlt, hn]
    · have hpos : 0 < n := by omega
      have hdiv : n / base < n := Nat.div_lt_self hpos h1
      have hmod : n % base < base := Nat.mod_lt _ (by omega)
      rw [Nat.toDigits_of_base_le h1 hge, readDigits_append, ih _ hdiv (by omega)]
      have hsum : n / base * base + n % base = n := Nat.div_add_mod' n base
      simp [Except.bind, readDigits, digit?_digitChar_all base h16 _ hmod, hsum, hn]

theorem toDigits_injective {base m n : Nat} (h1 : 1 < base) (h16 : base ≤ 16)
    (h : Nat.toDigits base m = Nat.toDigits base n) : m = n := by
  have hm : readDigits base (max m n + 1) 0 (Nat.toDigits base m) = .ok m :=
    readDigits_toDigits h1 h16 (by omega)
  have hn : readDigits base (max m n + 1) 0 (Nat.toDigits base n) = .ok n :=
    readDigits_toDigits h1 h16 (by omega)
  rw [h, hn] at hm
  exact (Except.ok.inj hm).symm

theorem decimal_injective {m n : Nat} (h : decimal m = decimal n) : m = n :=
  toDigits_injective (by omega) (by omega) (String.ofList_injective h)

theorem hex_injective {m n : Nat} (h : hex m = hex n) : m = n :=
  toDigits_injective (by omega) (by omega) (String.ofList_injective h)

/-! ## Filled columns -/

theorem readDigits_zeros (base limit k : Nat) (cs : List Char) (hb : 0 < base) (h16 : base ≤ 16)
    (hl : 0 < limit) :
    readDigits base limit 0 (List.replicate k '0' ++ cs) = readDigits base limit 0 cs := by
  induction k with
  | zero => rfl
  | succ k ih =>
    have h0 : digit? base '0' = some 0 := digit?_digitChar_all base h16 0 hb
    rw [List.replicate_succ, List.cons_append, readDigits, h0]
    simp [hl, ih]

/-- Numerals are made of digits of their base. -/
theorem exists_digit_of_mem_toDigits {base n : Nat} (h1 : 1 < base) {c : Char}
    (h : c ∈ Nat.toDigits base n) : ∃ d < base, c = d.digitChar := by
  induction n using Nat.strongRecOn with
  | _ n ih =>
    rcases Nat.lt_or_ge n base with hlt | hge
    · rw [Nat.toDigits_of_lt_base hlt, List.mem_singleton] at h
      exact ⟨n, hlt, h⟩
    · rw [Nat.toDigits_of_base_le h1 hge, List.mem_append, List.mem_singleton] at h
      rcases h with h | h
      · exact ih _ (Nat.div_lt_self (by omega) h1) h
      · exact ⟨n % base, Nat.mod_lt _ (by omega), h⟩

theorem isDigit_of_mem_toDigits {n : Nat} {c : Char} (h : c ∈ Nat.toDigits 10 n) :
    c.isDigit = true := by
  have hall : ∀ d < 10, d.digitChar.isDigit = true := by decide
  obtain ⟨d, hd, rfl⟩ := exists_digit_of_mem_toDigits (by omega) h
  exact hall d hd

theorem mem_toDigits_ne_plus {base n : Nat} (h1 : 1 < base) (h16 : base ≤ 16) {c : Char}
    (h : c ∈ Nat.toDigits base n) : c ≠ '+' := by
  obtain ⟨d, hd, rfl⟩ := exists_digit_of_mem_toDigits h1 h
  exact digitChar_ne_plus d (by omega)

theorem read_of_ne_plus (base limit : Nat) (cs : List Char) (hne : cs ≠ [])
    (hp : ∀ c ∈ cs, c ≠ '+') : read base limit cs = readDigits base limit 0 cs := by
  unfold read
  split
  · exact absurd rfl hne
  · exact absurd rfl (hp '+' (by simp))
  · exact absurd rfl (hp '+' (by simp))
  · rfl

theorem readWord_of_readDigits {base : Nat} {cs : List Char} {v : UInt16} (hne : cs ≠ [])
    (hp : ∀ c ∈ cs, c ≠ '+') (h : readDigits base 0x10000 0 cs = .ok v.toNat) :
    readWord base cs = .ok v := by
  rw [readWord, read_of_ne_plus _ _ _ hne hp, h]
  simp [Except.map]

/-- A word written in a column of hexadecimal digits is read back. -/
theorem readWord_hexPadded (width : Nat) (v : UInt16) :
    readWord 16 (hexPadded width v.toNat).toList = .ok v := by
  rw [hexPadded, String.toList_ofList]
  refine readWord_of_readDigits (by simp [padded, Nat.toDigits_ne_nil]) ?_ ?_
  · intro c hc
    rcases List.mem_append.mp hc with h | h
    · rw [List.eq_of_mem_replicate h]
      decide
    · exact mem_toDigits_ne_plus (by omega) (by omega) h
  · rw [padded, readDigits_zeros _ _ _ _ (by omega) (by omega) (by omega)]
    exact readDigits_toDigits (by omega) (by omega) v.toNat_lt

/-- A word in base ten is read back. -/
theorem readWord_decimal (v : UInt16) : readWord 10 (decimal v.toNat).toList = .ok v := by
  rw [decimal, String.toList_ofList]
  exact readWord_of_readDigits Nat.toDigits_ne_nil
    (fun c hc => mem_toDigits_ne_plus (by omega) (by omega) hc)
    (readDigits_toDigits (by omega) (by omega) v.toNat_lt)

/-! ## Upper case -/

theorem digit?_toUpper : ∀ d < 16, digit? 16 d.digitChar.toUpper = digit? 16 d.digitChar := by
  decide

theorem readDigits_map_toUpper {limit acc : Nat} {cs : List Char}
    (h : ∀ c ∈ cs, ∃ d < 16, c = d.digitChar) :
    readDigits 16 limit acc (cs.map Char.toUpper) = readDigits 16 limit acc cs := by
  induction cs generalizing acc with
  | nil => rfl
  | cons c cs ih =>
    obtain ⟨d, hd, rfl⟩ := h c List.mem_cons_self
    rw [List.map_cons, readDigits, readDigits, digit?_toUpper d hd]
    simp only [ih fun c hc => h c (List.mem_cons_of_mem _ hc)]

theorem toList_hexUpper (width n : Nat) : (hexUpper width n).toList =
    padded width ((Nat.toDigits 16 n).map Char.toUpper) :=
  String.toList_ofList

theorem toList_hexUpper_ne_nil (width n : Nat) : (hexUpper width n).toList ≠ [] := by
  simp [toList_hexUpper, padded, Nat.toDigits_ne_nil]

/-- Upper-case numerals are made of upper-case digits. -/
theorem exists_digit_of_mem_hexUpper {width n : Nat} {c : Char}
    (h : c ∈ (hexUpper width n).toList) : ∃ d < 16, c = d.digitChar.toUpper := by
  rw [toList_hexUpper, padded, List.mem_append] at h
  rcases h with h | h
  · exact ⟨0, by omega, List.eq_of_mem_replicate h⟩
  · obtain ⟨c', hc', rfl⟩ := List.mem_map.mp h
    obtain ⟨d, hd, rfl⟩ := exists_digit_of_mem_toDigits (by omega : 1 < 16) hc'
    exact ⟨d, hd, rfl⟩

theorem mem_hexUpper_ne_plus {width n : Nat} {c : Char} (h : c ∈ (hexUpper width n).toList) :
    c ≠ '+' := by
  have hall : ∀ d < 16, d.digitChar.toUpper ≠ '+' := by decide
  obtain ⟨d, hd, rfl⟩ := exists_digit_of_mem_hexUpper h
  exact hall d hd

theorem readDigits_hexUpper {limit n : Nat} (width : Nat) (hn : n < limit) :
    readDigits 16 limit 0 (hexUpper width n).toList = .ok n := by
  rw [toList_hexUpper, padded, readDigits_zeros _ _ _ _ (by omega) (by omega) (by omega),
    readDigits_map_toUpper fun c hc => exists_digit_of_mem_toDigits (by omega) hc]
  exact readDigits_toDigits (by omega) (by omega) hn

/-- A word in upper case is read back. -/
theorem readWord_hexUpper (width : Nat) (v : UInt16) :
    readWord 16 (hexUpper width v.toNat).toList = .ok v :=
  readWord_of_readDigits (toList_hexUpper_ne_nil _ _) (fun _ => mem_hexUpper_ne_plus)
    (readDigits_hexUpper width v.toNat_lt)

/-! ## Long numbers -/

theorem readLong_of_readDigits {base : Nat} {cs : List Char} {v : UInt32} (hne : cs ≠ [])
    (hp : ∀ c ∈ cs, c ≠ '+') (h : readDigits base 0x100000000 0 cs = .ok v.toNat) :
    readLong base cs = .ok v := by
  rw [readLong, read_of_ne_plus _ _ _ hne hp, h]
  simp [Except.map]

/-- A long number in base ten is read back. -/
theorem readLong_decimal (v : UInt32) : readLong 10 (decimal v.toNat).toList = .ok v := by
  rw [decimal, String.toList_ofList]
  exact readLong_of_readDigits Nat.toDigits_ne_nil
    (fun c hc => mem_toDigits_ne_plus (by omega) (by omega) hc)
    (readDigits_toDigits (by omega) (by omega) v.toNat_lt)

/-- A long number in base sixteen is read back. -/
theorem readLong_hexUpper (v : UInt32) : readLong 16 (hexUpper 0 v.toNat).toList = .ok v :=
  readLong_of_readDigits (toList_hexUpper_ne_nil _ _) (fun _ => mem_hexUpper_ne_plus)
    (readDigits_hexUpper 0 v.toNat_lt)

end MapScript.Numeral
