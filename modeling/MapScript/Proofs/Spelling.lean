import MapScript.Proofs.Lexemes
import MapScript.Proofs.Numeral
import MapScript.Token.Scan

/-!
# How lexemes are spelled

`Spells ok cs ls` says that the characters `cs` are read as the lexemes `ls` in front of whatever is
`ok`, and neither start a comment nor break the line.  Pieces of text are put together with
`Spells.append`.
-/

namespace MapScript.Token

open Text

structure Spells (ok : List Char → Prop) (cs : List Char) (ls : List Lexeme) : Prop where
  scans : ∀ line rest, ok rest →
    scanLine line (cs ++ rest) = (scanLine line rest).map (onLine line ls ++ ·)
  quiet : ∀ rest, ok rest → beforeComment? none rest = none →
    beforeComment? none (cs ++ rest) = none
  unbroken : ∀ c ∈ cs, c ≠ '\n' ∧ c ≠ '\r'

/-- Nothing that a word could go on with. -/
def Apart (cs : List Char) : Prop := ∀ c ∈ cs.head?, isWordChar c = false

/-- Anything at all. -/
abbrev Anything (_ : List Char) : Prop := True

/-- Nothing that makes a longer symbol, or a comment, of `c`. -/
def Single (c : Char) (cs : List Char) : Prop :=
  ∀ d ∈ cs.head?, Lexeme.ofPair? c d = none ∧ (c = '-' → d ≠ '-')

namespace Spells

variable {ok ok' : List Char → Prop} {xs ys : List Char} {ls ms : List Lexeme}

theorem append (h : Spells ok xs ls) (h' : Spells ok' ys ms)
    (hok : ∀ rest, ok' rest → ok (ys ++ rest)) : Spells ok' (xs ++ ys) (ls ++ ms) where
  scans line rest hr := by
    rw [List.append_assoc, h.scans line _ (hok rest hr), h'.scans line rest hr]
    cases scanLine line rest <;> simp [Except.map]
  quiet rest hr hq := by
    rw [List.append_assoc]
    exact h.quiet _ (hok rest hr) (h'.quiet rest hr hq)
  unbroken c hc := by
    rcases List.mem_append.mp hc with hc | hc
    · exact h.unbroken c hc
    · exact h'.unbroken c hc

theorem mono (h : Spells ok xs ls) (hok : ∀ rest, ok' rest → ok rest) : Spells ok' xs ls :=
  ⟨fun line rest hr => h.scans line rest (hok rest hr), fun rest hr => h.quiet rest (hok rest hr),
    h.unbroken⟩

theorem nil : Spells Anything [] [] where
  scans line rest _ := by
    show scanLine line rest = _
    cases scanLine line rest <;> rfl
  quiet _ _ hq := hq
  unbroken := by simp

end Spells

theorem beforeComment?_unquoted {c : Char} (hc : c ≠ '\\') (rest : List Char) :
    beforeComment? none (c :: rest) =
      if c = '"' || c = '\x27' then (beforeComment? (some c) rest).map (c :: ·)
      else if c = '-' && rest.head? == some '-' then some []
      else (beforeComment? none rest).map (c :: ·) :=
  beforeComment?.eq_5 c rest (fun h _ => hc h) fun _ _ h _ => hc h

theorem beforeComment?_cons {c : Char} (h1 : c ≠ '\\') (h2 : c ≠ '"') (h3 : c ≠ '\x27')
    {rest : List Char} (hd : c = '-' → rest.head? ≠ some '-')
    (hr : beforeComment? none rest = none) : beforeComment? none (c :: rest) = none := by
  rw [beforeComment?_unquoted h1]
  simp [h2, h3, hr]
  exact hd

/-! ## Single lexemes -/

section

variable (line : Nat) {c : Char} {cs : List Char}

theorem scanLine_blank (hb : isBlank c = true) : scanLine line (c :: cs) = scanLine line cs := by
  rw [scanLine, if_pos hb]

theorem scanLine_digit (hb : ¬isBlank c = true) (hd : c.isDigit = true) :
    scanLine line (c :: cs) = do
      let lit ← readNumber line (c :: cs.takeWhile isWordChar)
      let more ← scanLine line (cs.dropWhile isWordChar)
      return ⟨.number lit, line⟩ :: more := by
  rw [scanLine, if_neg hb, if_pos hd]

theorem scanLine_word (hb : ¬isBlank c = true) (hd : ¬c.isDigit = true)
    (hw : isWordStart c = true) :
    scanLine line (c :: cs) = do
      let more ← scanLine line (cs.dropWhile isWordChar)
      return ⟨.ofWord (String.ofList (c :: cs.takeWhile isWordChar)), line⟩ :: more := by
  rw [scanLine, if_neg hb, if_neg hd, if_pos hw]

theorem scanLine_unexpected (hb : ¬isBlank c = true) (hd : ¬c.isDigit = true)
    (hw : ¬isWordStart c = true) (hs : symbol? c cs = none) :
    scanLine line (c :: cs) = .error (.unexpectedChar c line) := by
  rw [scanLine, if_neg hb, if_neg hd, if_neg hw]
  simp only [hs]

end

/-! ## Blanks -/

theorem spells_blank : Spells Anything [' '] [] where
  scans line rest _ := by
    rw [List.singleton_append, scanLine_blank line (by decide)]
    cases scanLine line rest <;> rfl
  quiet rest _ hq := beforeComment?_cons (by decide) (by decide) (by decide) (by simp) hq
  unbroken := by simp

/-! ## Symbols -/

/-- What a character that stands for a symbol is not. -/
structure Plain (c : Char) : Prop where
  blank : isBlank c = false
  digit : c.isDigit = false
  word : isWordStart c = false
  quiet : c ≠ '\\' ∧ c ≠ '"' ∧ c ≠ '\x27'
  unbroken : c ≠ '\n' ∧ c ≠ '\r'

theorem plain_of_ofChar? {c : Char} {l : Lexeme} (h : Lexeme.ofChar? c = some l) : Plain c := by
  unfold Lexeme.ofChar? at h
  split at h
  all_goals first
    | exact ⟨by decide, by decide, by decide, by decide, by decide⟩
    | cases h

theorem plain_of_ofPair? {c d : Char} {l : Lexeme} (h : Lexeme.ofPair? c d = some l) :
    (Plain c ∧ c ≠ '-') ∧ Plain d ∧ d ≠ '-' := by
  unfold Lexeme.ofPair? at h
  split at h
  all_goals first
    | exact ⟨⟨⟨by decide, by decide, by decide, by decide, by decide⟩, by decide⟩,
        ⟨by decide, by decide, by decide, by decide, by decide⟩, by decide⟩
    | cases h

theorem scanLine_symbol {c : Char} (hc : Plain c) {rest : List Char} {l : Lexeme} {extra : Nat}
    (h : symbol? c rest = some (l, extra)) (line : Nat) :
    scanLine line (c :: rest) = (scanLine line (rest.drop extra)).map (⟨l, line⟩ :: ·) := by
  rw [scanLine]
  simp only [hc.blank, hc.digit, hc.word, h, Bool.false_eq_true, if_false]
  cases scanLine line (rest.drop extra) <;> rfl

theorem spells_symbol {c : Char} {l : Lexeme} (h : Lexeme.ofChar? c = some l) :
    Spells (Single c) [c] [l] where
  scans line rest hr := by
    have hpair : rest.head?.bind (Lexeme.ofPair? c) = none := by
      rw [Option.bind_eq_none_iff]
      exact fun d hd => (hr d hd).1
    have hs : symbol? c rest = some (l, 0) := by simp [symbol?, hpair, h]
    exact scanLine_symbol (plain_of_ofChar? h) hs line
  quiet rest hr hq := by
    obtain ⟨h1, h2, h3⟩ := (plain_of_ofChar? h).quiet
    exact beforeComment?_cons h1 h2 h3 (fun hc hd => (hr _ hd).2 hc rfl) hq
  unbroken := by simpa using (plain_of_ofChar? h).unbroken

theorem spells_pair {c d : Char} {l : Lexeme} (h : Lexeme.ofPair? c d = some l) :
    Spells Anything [c, d] [l] where
  scans line rest _ := by
    have hs : symbol? c (d :: rest) = some (l, 1) := by simp [symbol?, h]
    exact scanLine_symbol (plain_of_ofPair? h).1.1 hs line
  quiet rest _ hq := by
    obtain ⟨⟨hc, hc'⟩, hd, hd'⟩ := plain_of_ofPair? h
    exact beforeComment?_cons hc.quiet.1 hc.quiet.2.1 hc.quiet.2.2 (fun he => absurd he hc')
      (beforeComment?_cons hd.quiet.1 hd.quiet.2.1 hd.quiet.2.2 (fun he => absurd he hd') hq)
  unbroken := by
    obtain ⟨⟨hc, -⟩, hd, -⟩ := plain_of_ofPair? h
    simpa using ⟨hc.unbroken, hd.unbroken⟩

/-! ## Words and numbers -/

theorem isWordChar_iff {c : Char} :
    isWordChar c = true ↔ isWordStart c = true ∨ c.isDigit = true := by
  simp only [isWordChar, isWordStart, Char.isAlphanum, Bool.or_eq_true]
  exact or_right_comm

theorem isWordChar_of_isWordStart {c : Char} (h : isWordStart c = true) : isWordChar c = true :=
  isWordChar_iff.mpr (.inl h)

theorem isWordChar_of_isDigit {c : Char} (h : c.isDigit = true) : isWordChar c = true :=
  isWordChar_iff.mpr (.inr h)

/-- A character of a word is no quote, backslash, dash or break. -/
theorem ne_of_isWordChar {c d : Char} (h : isWordChar c = true) (hd : isWordChar d = false) :
    c ≠ d := by
  rintro rfl
  rw [h] at hd
  cases hd

theorem quiet_word {cs : List Char} (h : ∀ c ∈ cs, isWordChar c = true) {rest : List Char}
    (hq : beforeComment? none rest = none) : beforeComment? none (cs ++ rest) = none := by
  induction cs with
  | nil => exact hq
  | cons c cs ih =>
    have hc := h c List.mem_cons_self
    have hcs := ih fun d hd => h d (List.mem_cons_of_mem _ hd)
    exact beforeComment?_cons (ne_of_isWordChar hc (by decide)) (ne_of_isWordChar hc (by decide))
      (ne_of_isWordChar hc (by decide)) (fun he => absurd he (ne_of_isWordChar hc (by decide))) hcs

theorem takeWhile_word {cs : List Char} (h : ∀ c ∈ cs, isWordChar c = true) {rest : List Char}
    (hr : Apart rest) : (cs ++ rest).takeWhile isWordChar = cs ∧
      (cs ++ rest).dropWhile isWordChar = rest := by
  have hrest : rest.takeWhile isWordChar = [] ∧ rest.dropWhile isWordChar = rest := by
    cases rest with
    | nil => exact ⟨rfl, rfl⟩
    | cons c rest => simp [hr c rfl]
  rw [List.takeWhile_append_of_pos h, List.dropWhile_append_of_pos h, hrest.1, hrest.2,
    List.append_nil]
  exact ⟨rfl, rfl⟩

theorem toNat_of_isDigit {c : Char} (h : c.isDigit = true) : 48 ≤ c.toNat ∧ c.toNat ≤ 57 :=
  Char.isDigit_iff_toNat.mp h

theorem toNat_of_isWordStart {c : Char} (h : isWordStart c = true) :
    (65 ≤ c.toNat ∧ c.toNat ≤ 90) ∨ (97 ≤ c.toNat ∧ c.toNat ≤ 122) ∨ c.toNat = 95 := by
  have hdef : isWordStart c = (decide (65 ≤ c.val ∧ c.val ≤ 90) ||
      (decide (97 ≤ c.val) && decide (c.val ≤ 122)) || c == '_') := rfl
  simp only [hdef, Bool.or_eq_true, Bool.and_eq_true, decide_eq_true_eq, beq_iff_eq,
    UInt32.le_iff_toNat_le] at h
  rcases h with (h | h) | rfl
  · exact .inl h
  · exact .inr (.inl h)
  · exact .inr (.inr rfl)

theorem isDigit_of_isWordStart {c : Char} (h : isWordStart c = true) : c.isDigit = false := by
  rw [Bool.eq_false_iff]
  intro hd
  have := toNat_of_isWordStart h
  have := toNat_of_isDigit hd
  omega

theorem isBlank_of_isWordChar {c : Char} (h : isWordChar c = true) : isBlank c = false := by
  rw [Bool.eq_false_iff]
  intro hb
  simp only [isBlank, Bool.or_eq_true, Bool.and_eq_true, decide_eq_true_eq, beq_iff_eq] at hb
  rcases isWordChar_iff.mp h with h | h
  · have := toNat_of_isWordStart h
    omega
  · have := toNat_of_isDigit h
    omega

theorem spells_word {c : Char} {cs : List Char} (hc : isWordStart c = true)
    (hcs : cs.all isWordChar = true) :
    Spells Apart (c :: cs) [.ofWord (String.ofList (c :: cs))] := by
  rw [List.all_eq_true] at hcs
  have hword : ∀ d ∈ c :: cs, isWordChar d = true :=
    List.forall_mem_cons.mpr ⟨isWordChar_of_isWordStart hc, hcs⟩
  refine ⟨fun line rest hr => ?_, fun rest _ hq => quiet_word hword hq, fun d hd =>
    ⟨ne_of_isWordChar (hword d hd) (by decide), ne_of_isWordChar (hword d hd) (by decide)⟩⟩
  obtain ⟨htake, hdrop⟩ := takeWhile_word hcs hr
  have hblank := isBlank_of_isWordChar (hword c List.mem_cons_self)
  rw [List.cons_append, scanLine_word line (by simp [hblank]) (by simp [isDigit_of_isWordStart hc])
    hc, htake, hdrop]
  cases scanLine line rest <;> rfl

theorem spells_digits {c : Char} {cs : List Char} {lit : Literal} (hc : c.isDigit = true)
    (hcs : ∀ d ∈ cs, isWordChar d = true) (h : ∀ line, readNumber line (c :: cs) = .ok lit) :
    Spells Apart (c :: cs) [.number lit] := by
  have hword : ∀ d ∈ c :: cs, isWordChar d = true :=
    List.forall_mem_cons.mpr ⟨isWordChar_of_isDigit hc, hcs⟩
  refine ⟨fun line rest hr => ?_, fun rest _ hq => quiet_word hword hq, fun d hd =>
    ⟨ne_of_isWordChar (hword d hd) (by decide), ne_of_isWordChar (hword d hd) (by decide)⟩⟩
  obtain ⟨htake, hdrop⟩ := takeWhile_word hcs hr
  have hblank := isBlank_of_isWordChar (hword c List.mem_cons_self)
  rw [List.cons_append, scanLine_digit line (by simp [hblank]) hc, htake, hdrop, h]
  cases scanLine line rest <;> rfl

/-- Decimal digits hold no mark of another base. -/
theorem readNumber_decimal {cs : List Char} (hcs : ∀ c ∈ cs, c.isDigit = true) {v : UInt32}
    (h : Numeral.readLong 10 cs = .ok v) (line : Nat) :
    readNumber line cs = .ok ⟨v, .decimal⟩ := by
  have hx : ('x'.isDigit = false) ∧ 'X'.isDigit = false := by decide
  unfold readNumber
  split
  · have := hcs 'x' (by simp)
    rw [hx.1] at this
    cases this
  · have := hcs 'X' (by simp)
    rw [hx.2] at this
    cases this
  · rw [h]
    rfl

theorem readNumber_hex {cs : List Char} {v : UInt32} (h : Numeral.readLong 16 cs = .ok v)
    (line : Nat) : readNumber line ('0' :: 'x' :: cs) = .ok ⟨v, .hex⟩ := by
  simp only [readNumber, h, Except.map]

/-- The text of a number is one word that starts with a digit and is read as the number. -/
theorem exists_text_literal (l : Literal) : ∃ c cs, l.text.toList = c :: cs ∧ c.isDigit = true ∧
    (∀ d ∈ cs, isWordChar d = true) ∧ ∀ line, readNumber line (c :: cs) = .ok l := by
  obtain ⟨v, radix⟩ := l
  cases radix with
  | decimal =>
    have hdigits : ∀ c ∈ Nat.toDigits 10 v.toNat, c.isDigit = true :=
      fun _ => Numeral.isDigit_of_mem_toDigits
    have hread := Numeral.readLong_decimal v
    have htext : (Literal.text ⟨v, .decimal⟩).toList = Nat.toDigits 10 v.toNat :=
      String.toList_ofList
    rw [Numeral.decimal, String.toList_ofList] at hread
    rw [htext]
    obtain ⟨c, cs, hcs⟩ := List.exists_cons_of_ne_nil (Nat.toDigits_ne_nil (b := 10) (n := v.toNat))
    rw [hcs] at hdigits hread ⊢
    exact ⟨c, cs, rfl, hdigits c List.mem_cons_self,
      fun d hd => isWordChar_of_isDigit (hdigits d (List.mem_cons_of_mem _ hd)),
      readNumber_decimal hdigits hread⟩
  | hex =>
    have hread := Numeral.readLong_hexUpper v
    have htext : (Literal.text ⟨v, .hex⟩).toList =
        '0' :: 'x' :: (Numeral.hexUpper 0 v.toNat).toList := by
      simp [Literal.text]
    refine ⟨'0', _, htext, by decide, List.forall_mem_cons.mpr ⟨by decide, fun c hc => ?_⟩,
      readNumber_hex hread⟩
    obtain ⟨d, hd, rfl⟩ := Numeral.exists_digit_of_mem_hexUpper hc
    have hall : ∀ d < 16, isWordChar d.digitChar.toUpper = true := by decide
    exact hall d hd

theorem spells_literal (l : Literal) : Spells Apart l.text.toList [.number l] := by
  obtain ⟨c, cs, htext, hc, hcs, hread⟩ := exists_text_literal l
  rw [htext]
  exact spells_digits hc hcs hread

end MapScript.Token
