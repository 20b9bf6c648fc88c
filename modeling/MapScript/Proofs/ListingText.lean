import MapScript.Listing
import MapScript.Proofs.Linked
import MapScript.Proofs.Spelling
import MapScript.Proofs.TextPieces
import Mathlib.Data.List.Forall2

/-!
# Listings as text

A line of a listing is an instruction (`IsLine`) or has something wrong (`IsFault`), and a listing
is read line by line up to the first fault:

    parse text = .ok code ↔ each line that is not blank is the instruction of the code there
    parse text = .error e ↔ e is the fault of a line, and all lines before it are instructions

The lines that are written for code are its instructions, so that they are read back.
-/

namespace MapScript.Listing

open Text Token

/-! ## What a line says -/

/-- Words that are an instruction: a mnemonic, and behind it as many operands as it takes. -/
inductive IsInstruction : List (List Char) → Instruction → Prop
  | intro {mnemonic : List Char} {operands : List (List Char)} {i : Instruction} :
    Opcode.ofMnemonic? (String.ofList mnemonic) = some i.opcode →
    List.Forall₂ (fun w v => Numeral.readWord 16 w = .ok v) operands i.operands →
    i.wellFormed = true → IsInstruction (mnemonic :: operands) i

/-- Words of a line: an instruction, with or without an offset in front. -/
inductive IsLine : List (List Char) → Instruction → Prop
  | bare {words : List (List Char)} {i : Instruction} : IsInstruction words i → IsLine words i
  | column {w : List Char} {words : List (List Char)} {i : Instruction} :
    isOffsetColumn w = true → IsInstruction words i → IsLine (w :: words) i

/-- What is wrong with words that are no instruction.  The mnemonic is looked at first, then each
operand, and last their number.  Where there are no words, the mnemonic is empty. -/
inductive IsFault (line : Nat) : List (List Char) → Error → Prop
  | unknown {words : List (List Char)} :
    Opcode.ofMnemonic? (String.ofList (words.headD [])) = none →
    IsFault line words (.unknownMnemonic line (String.ofList (words.headD [])))
  | operand {mnemonic w : List Char} {before more : List (List Char)} {op : Opcode} :
    Opcode.ofMnemonic? (String.ofList mnemonic) = some op →
    (∀ x ∈ before, ∃ v, Numeral.readWord 16 x = .ok v) →
    (∀ v, Numeral.readWord 16 w ≠ .ok v) →
    IsFault line (mnemonic :: (before ++ w :: more)) (.badOperand line (String.ofList w))
  | count {mnemonic : List Char} {operands : List (List Char)} {values : List UInt16}
    {op : Opcode} :
    Opcode.ofMnemonic? (String.ofList mnemonic) = some op →
    List.Forall₂ (fun w v => Numeral.readWord 16 w = .ok v) operands values →
    operands.length ≠ op.arity →
    IsFault line (mnemonic :: operands)
      (.operandCount line (String.ofList mnemonic) op.arity operands.length)

/-- What is wrong with the words of a line, behind its offset if it has one. -/
inductive IsLineFault (line : Nat) : List (List Char) → Error → Prop
  | bare {words : List (List Char)} {e : Error} :
    (∀ w ∈ words.head?, isOffsetColumn w = false) → IsFault line words e →
    IsLineFault line words e
  | column {w : List Char} {words : List (List Char)} {e : Error} :
    isOffsetColumn w = true → IsFault line words e → IsLineFault line (w :: words) e

/-! ## Mnemonics -/

theorem ofMnemonic?_empty : Opcode.ofMnemonic? (String.ofList []) = none := by
  decide

theorem all_isWordChar_of_isPlainWord {cs : List Char} (h : isPlainWord cs = true) :
    cs.all isWordChar = true := by
  cases cs with
  | nil => rfl
  | cons c cs =>
    simp only [isPlainWord, Bool.and_eq_true] at h
    rw [List.all_cons, isWordChar_of_isWordStart h.1.1, h.1.2]
    rfl

/-- What an opcode is found by is a single word. -/
theorem isWordChar_of_ofMnemonic? {cs : List Char} {op : Opcode}
    (h : Opcode.ofMnemonic? (String.ofList cs) = some op) : ∀ c ∈ cs, isWordChar c = true := by
  unfold Opcode.ofMnemonic? at h
  rw [String.toList_ofList] at h
  split at h
  · next digits hstem =>
    have hcall : callEntry.mnemonic.toList.all isWordChar = true := by decide
    split at h
    · next hdigits =>
      simp only [Numeral.isDigits, Bool.and_eq_true, List.all_eq_true] at hdigits
      rw [← List.isPrefixOf?_eq_some_iff_append_eq.mp hstem]
      intro c hc
      rcases List.mem_append.mp hc with hc | hc
      · exact List.all_eq_true.mp hcall c hc
      · exact isWordChar_of_isDigit (hdigits.2 c hc)
    · cases h
  · obtain ⟨i, hi, rfl⟩ := Option.map_eq_some_iff.mp h
    have hp : (table.get i).mnemonic = String.ofList cs :=
      beq_iff_eq.mp (List.findFinIdx?_eq_some_iff.mp hi).1
    have hword := all_isWordChar_of_isPlainWord
      (Names.isPlainWord Opcode.mnemonics _ (List.get_mem table i))
    rwa [hp, String.toList_ofList, List.all_eq_true] at hword

theorem solid_of_ofMnemonic? {cs : List Char} {op : Opcode}
    (h : Opcode.ofMnemonic? (String.ofList cs) = some op) : Solid cs := by
  refine ⟨?_, fun c hc => isBlank_of_isWordChar (isWordChar_of_ofMnemonic? h c hc)⟩
  rintro rfl
  rw [ofMnemonic?_empty] at h
  cases h

theorem isOffsetColumn_iff {w : List Char} : isOffsetColumn w = true ↔
    ∃ digits, w = digits ++ [':'] ∧ digits ≠ [] ∧
      ∀ c ∈ digits, (Numeral.digit? 16 c).isSome = true := by
  simp only [isOffsetColumn, Bool.and_eq_true, List.all_eq_true, beq_iff_eq, Bool.not_eq_true',
    List.isEmpty_eq_false_iff]
  constructor
  · rintro ⟨⟨hlast, hne⟩, hdigits⟩
    exact ⟨w.dropLast, (List.dropLast_append_getLast? ':' hlast).symm, hne, hdigits⟩
  · rintro ⟨digits, rfl, hne, hdigits⟩
    rw [List.dropLast_concat]
    exact ⟨⟨by simp, hne⟩, hdigits⟩

/-- So no mnemonic is taken for an offset. -/
theorem isOffsetColumn_of_ofMnemonic? {cs : List Char} {op : Opcode}
    (h : Opcode.ofMnemonic? (String.ofList cs) = some op) : isOffsetColumn cs = false := by
  rw [Bool.eq_false_iff]
  intro hcolumn
  obtain ⟨digits, rfl, -, -⟩ := isOffsetColumn_iff.mp hcolumn
  have hcolon : isWordChar ':' = true := isWordChar_of_ofMnemonic? h ':' (by simp)
  exact absurd hcolon (by decide)

/-! ## Reading a line -/

theorem readOperand_eq_ok_iff {line : Nat} {w : List Char} {v : UInt16} :
    readOperand line w = .ok v ↔ Numeral.readWord 16 w = .ok v := by
  unfold readOperand
  cases Numeral.readWord 16 w <;> simp

theorem readOperand_eq_error_iff {line : Nat} {w : List Char} {e : Error} :
    readOperand line w = .error e ↔
      (∀ v, Numeral.readWord 16 w ≠ .ok v) ∧ e = .badOperand line (String.ofList w) := by
  unfold readOperand
  cases Numeral.readWord 16 w <;> simp [eq_comm]

theorem readOperands_eq_ok_iff {line : Nat} {ws : List (List Char)} {vs : List UInt16} :
    ws.mapM (readOperand line) = .ok vs ↔
      List.Forall₂ (fun w v => Numeral.readWord 16 w = .ok v) ws vs := by
  induction ws generalizing vs with
  | nil => simp [pure, Except.pure, eq_comm]
  | cons w ws ih =>
    rw [List.mapM_cons, bind_eq_ok, List.forall₂_cons_left_iff]
    constructor
    · rintro ⟨v, hv, h⟩
      obtain ⟨more, hmore, h⟩ := bind_eq_ok.mp h
      cases h
      exact ⟨v, more, readOperand_eq_ok_iff.mp hv, ih.mp hmore, rfl⟩
    · rintro ⟨v, more, hv, hmore, rfl⟩
      exact ⟨v, readOperand_eq_ok_iff.mpr hv, bind_eq_ok.mpr ⟨more, ih.mpr hmore, rfl⟩⟩

/-- Operands are read up to the first one that is none. -/
theorem readOperands_eq_error_iff {line : Nat} {ws : List (List Char)} {e : Error} :
    ws.mapM (readOperand line) = .error e ↔ ∃ before w more, ws = before ++ w :: more ∧
      (∀ x ∈ before, ∃ v, Numeral.readWord 16 x = .ok v) ∧
      (∀ v, Numeral.readWord 16 w ≠ .ok v) ∧ e = .badOperand line (String.ofList w) := by
  induction ws with
  | nil => simp [pure, Except.pure]
  | cons w ws ih =>
    rw [List.mapM_cons, bind_eq_error]
    constructor
    · rintro (h | ⟨v, hv, h⟩)
      · exact ⟨[], w, ws, rfl, nofun, readOperand_eq_error_iff.mp h⟩
      · rcases bind_eq_error.mp h with h | ⟨_, -, h⟩
        · obtain ⟨before, w', more, rfl, hbefore, hw'⟩ := ih.mp h
          exact ⟨w :: before, w', more, rfl,
            List.forall_mem_cons.mpr ⟨⟨v, readOperand_eq_ok_iff.mp hv⟩, hbefore⟩, hw'⟩
        · cases h
    · rintro ⟨before, w', more, hws, hbefore, hw'⟩
      cases before with
      | nil =>
        cases hws
        exact .inl (readOperand_eq_error_iff.mpr hw')
      | cons x before =>
        cases hws
        obtain ⟨⟨v, hv⟩, hbefore⟩ := List.forall_mem_cons.mp hbefore
        exact .inr ⟨v, readOperand_eq_ok_iff.mpr hv,
          bind_eq_error.mpr (.inl (ih.mpr ⟨before, w', more, rfl, hbefore, hw'⟩))⟩

theorem readInstruction_eq_ok_iff {line : Nat} {words : List (List Char)} {i : Instruction} :
    readInstruction line words = .ok i ↔ IsInstruction words i := by
  unfold readInstruction
  constructor
  · intro h
    cases words with
    | nil =>
      simp only [List.headD_nil, ofMnemonic?_empty] at h
      cases h
    | cons mnemonic operands =>
      simp only [List.headD_cons, List.tail_cons] at h
      split at h
      · cases h
      · next op hop =>
        obtain ⟨vs, hvs, h⟩ := bind_eq_ok.mp h
        split at h
        · next hlen =>
          cases h
          exact .intro hop (readOperands_eq_ok_iff.mp hvs) (beq_iff_eq.mpr hlen)
        · cases h
  · rintro ⟨hop, hvs, hlen⟩
    simp only [List.headD_cons, List.tail_cons, hop]
    refine bind_eq_ok.mpr ⟨i.operands, readOperands_eq_ok_iff.mpr hvs, ?_⟩
    exact if_pos (beq_iff_eq.mp hlen)

theorem readInstruction_eq_error_iff {line : Nat} {words : List (List Char)} {e : Error} :
    readInstruction line words = .error e ↔ IsFault line words e := by
  unfold readInstruction
  constructor
  · intro h
    simp only at h
    split at h
    · next hop =>
      cases h
      exact .unknown hop
    · next op hop =>
      cases words with
      | nil =>
        rw [List.headD_nil, ofMnemonic?_empty] at hop
        cases hop
      | cons mnemonic operands =>
        rcases bind_eq_error.mp h with h | ⟨vs, hvs, h⟩
        · obtain ⟨before, w, more, hws, hbefore, hw, rfl⟩ := readOperands_eq_error_iff.mp h
          rw [List.tail_cons] at hws
          subst hws
          exact .operand hop hbefore hw
        · have hvs := readOperands_eq_ok_iff.mp hvs
          split at h
          · cases h
          · next hlen =>
            cases h
            rw [← hvs.length_eq] at hlen ⊢
            exact .count hop hvs hlen
  · intro h
    cases h with
    | unknown hop => simp only [hop]; rfl
    | operand hop hbefore hw =>
      simp only [List.headD_cons, List.tail_cons, hop]
      exact bind_eq_error.mpr
        (.inl (readOperands_eq_error_iff.mpr ⟨_, _, _, rfl, hbefore, hw, rfl⟩))
    | @count mnemonic operands values op hop hvs hlen =>
      simp only [List.headD_cons, List.tail_cons, hop]
      refine bind_eq_error.mpr (.inr ⟨values, readOperands_eq_ok_iff.mpr hvs, ?_⟩)
      rw [hvs.length_eq] at hlen ⊢
      exact if_neg hlen

theorem readLine_eq_ok_iff {line : Nat} {words : List (List Char)} {i : Instruction} :
    readLine line words = .ok i ↔ IsLine words i := by
  constructor
  · intro h
    unfold readLine at h
    split at h
    · exact .bare (readInstruction_eq_ok_iff.mp h)
    · next w rest =>
      split at h
      · next hw => exact .column hw (readInstruction_eq_ok_iff.mp h)
      · exact .bare (readInstruction_eq_ok_iff.mp h)
  · intro h
    cases h with
    | bare h =>
      -- the first word is a mnemonic, so it is not skipped
      have hread : readInstruction line words = .ok i := readInstruction_eq_ok_iff.mpr h
      obtain ⟨hop, -, -⟩ := h
      rw [readLine, isOffsetColumn_of_ofMnemonic? hop]
      exact hread
    | column hw h =>
      rw [readLine, if_pos hw]
      exact readInstruction_eq_ok_iff.mpr h

theorem readLine_eq_error_iff {line : Nat} {words : List (List Char)} {e : Error} :
    readLine line words = .error e ↔ IsLineFault line words e := by
  constructor
  · intro h
    unfold readLine at h
    split at h
    · exact .bare (by simp) (readInstruction_eq_error_iff.mp h)
    · next w rest =>
      split at h
      · next hw => exact .column hw (readInstruction_eq_error_iff.mp h)
      · next hw => exact .bare (by simpa using hw) (readInstruction_eq_error_iff.mp h)
  · intro h
    cases h with
    | bare hw h =>
      have hread := readInstruction_eq_error_iff.mpr h
      cases words with
      | nil => exact hread
      | cons w words =>
        rw [readLine, hw w rfl]
        exact hread
    | column hw h =>
      rw [readLine, if_pos hw]
      exact readInstruction_eq_error_iff.mpr h

/-- A line with a fault is no instruction. -/
theorem IsLineFault.not_isLine {line : Nat} {words : List (List Char)} {e : Error}
    (h : IsLineFault line words e) (i : Instruction) : ¬ IsLine words i := by
  intro hi
  have hok : readLine line words = .ok i := readLine_eq_ok_iff.mpr hi
  rw [readLine_eq_error_iff.mpr h] at hok
  cases hok

/-! ## Reading a listing -/

theorem readLines_eq_ok_iff {line : Nat} {ls : List (List (List Char))}
    {code : List Instruction} :
    readLines line ls = .ok code ↔ List.Forall₂ IsLine ls code := by
  induction ls generalizing line code with
  | nil => simp [readLines, eq_comm]
  | cons words ls ih =>
    rw [readLines, bind_eq_ok, List.forall₂_cons_left_iff]
    constructor
    · rintro ⟨i, hi, h⟩
      obtain ⟨more, hmore, h⟩ := bind_eq_ok.mp h
      cases h
      exact ⟨i, more, readLine_eq_ok_iff.mp hi, ih.mp hmore, rfl⟩
    · rintro ⟨i, more, hi, hmore, rfl⟩
      exact ⟨i, readLine_eq_ok_iff.mpr hi, bind_eq_ok.mpr ⟨more, ih.mpr hmore, rfl⟩⟩

/-- Lines are read up to the first one with a fault. -/
theorem readLines_eq_error_iff {line : Nat} {ls : List (List (List Char))} {e : Error} :
    readLines line ls = .error e ↔ ∃ before words more code, ls = before ++ words :: more ∧
      List.Forall₂ IsLine before code ∧ IsLineFault (line + before.length) words e := by
  induction ls generalizing line with
  | nil => simp [readLines]
  | cons words ls ih =>
    rw [readLines, bind_eq_error]
    constructor
    · rintro (h | ⟨i, hi, h⟩)
      · exact ⟨[], words, ls, [], rfl, .nil, readLine_eq_error_iff.mp h⟩
      · rcases bind_eq_error.mp h with h | ⟨_, -, h⟩
        · obtain ⟨before, words', more, code, rfl, hbefore, hfault⟩ := ih.mp h
          refine ⟨words :: before, words', more, i :: code, rfl,
            .cons (readLine_eq_ok_iff.mp hi) hbefore, ?_⟩
          rwa [List.length_cons, Nat.add_comm before.length, ← Nat.add_assoc]
        · cases h
    · rintro ⟨before, words', more, code, hls, hbefore, hfault⟩
      cases hbefore with
      | nil =>
        cases hls
        exact .inl (readLine_eq_error_iff.mpr hfault)
      | @cons _ i before code hi hbefore =>
        cases hls
        rw [List.length_cons, Nat.add_comm before.length, ← Nat.add_assoc] at hfault
        exact .inr ⟨i, readLine_eq_ok_iff.mpr hi, bind_eq_error.mpr
          (.inl (ih.mpr ⟨before, words', more, code, rfl, hbefore, hfault⟩))⟩

/-- The lines of a text that are not blank. -/
def filledLines (text : String) : List (List Char) :=
  (Text.lines text.toList).filter (·.any (!isBlank ·))

theorem parse_eq (text : String) : parse text = readLines 1 ((filledLines text).map words) := by
  have hfilled (cs : List Char) : (!(words cs).isEmpty) = cs.any (!isBlank ·) := by
    rw [Bool.eq_iff_iff, Bool.not_eq_true', List.isEmpty_eq_false_iff, Ne, words_eq_nil_iff]
    simp
  rw [parse, filledLines, List.filter_map]
  congr 3
  exact funext hfilled

/-! ## Writing -/

theorem solid_hexUpper (width n : Nat) : Solid (Numeral.hexUpper width n).toList := by
  have hall : ∀ d < 16, isBlank d.digitChar.toUpper = false := by decide
  refine ⟨Numeral.toList_hexUpper_ne_nil _ _, fun c hc => ?_⟩
  obtain ⟨d, hd, rfl⟩ := Numeral.exists_digit_of_mem_hexUpper hc
  exact hall d hd

theorem isOffsetColumn_hexUpper (width n : Nat) :
    isOffsetColumn ((Numeral.hexUpper width n).toList ++ [':']) = true := by
  have hall : ∀ d < 16, (Numeral.digit? 16 d.digitChar.toUpper).isSome = true := by decide
  refine isOffsetColumn_iff.mpr ⟨_, rfl, Numeral.toList_hexUpper_ne_nil _ _, fun c hc => ?_⟩
  obtain ⟨d, hd, rfl⟩ := Numeral.exists_digit_of_mem_hexUpper hc
  exact hall d hd

/-- The line is words with single blanks between them, and stands for the instruction. -/
def IsWritten (line : String) (i : Instruction) : Prop :=
  ∃ w ws, line.toList = w ++ ws.flatMap (' ' :: ·) ∧ (∀ x ∈ w :: ws, Solid x) ∧ IsLine (w :: ws) i

theorem IsWritten.isLine {line : String} {i : Instruction} (h : IsWritten line i) :
    IsLine (words line.toList) i := by
  obtain ⟨w, ws, hline, hsolid, hi⟩ := h
  obtain ⟨hw, hws⟩ := List.forall_mem_cons.mp hsolid
  rwa [hline, words_joined hw hws]

theorem IsWritten.unbroken {line : String} {i : Instruction} (h : IsWritten line i) :
    Unbroken line.toList ∧ line.toList ≠ [] := by
  obtain ⟨w, ws, hline, hsolid, -⟩ := h
  obtain ⟨hw, hws⟩ := List.forall_mem_cons.mp hsolid
  rw [hline]
  exact ⟨unbroken_joined hw hws, by simp [hw.1]⟩

theorem IsWritten.filled {line : String} {i : Instruction} (h : IsWritten line i) :
    line.toList.any (!isBlank ·) = true := by
  obtain ⟨w, ws, hline, hsolid, -⟩ := h
  obtain ⟨⟨hne, hw⟩, -⟩ := List.forall_mem_cons.mp hsolid
  obtain ⟨c, w, rfl⟩ := List.exists_cons_of_ne_nil hne
  simp [hline, hw c List.mem_cons_self]

theorem toList_text (i : Instruction) : i.text.toList = i.opcode.mnemonic.toList ++
    (i.operands.map fun v => (Instruction.operandText v).toList).flatMap (' ' :: ·) := by
  rw [Instruction.text]
  generalize i.opcode.mnemonic = s
  induction i.operands generalizing s with
  | nil => simp
  | cons v vs ih =>
    rw [List.foldl_cons, ih]
    simp

theorem isInstruction_text {i : Instruction} (h : i.wellFormed = true) :
    IsInstruction (i.opcode.mnemonic.toList ::
      i.operands.map fun v => (Instruction.operandText v).toList) i := by
  refine .intro ?_ ?_ h
  · rw [String.ofList_toList]
    exact Opcode.ofMnemonic?_mnemonic i.opcode
  · rw [List.forall₂_map_left_iff]
    exact List.forall₂_same.mpr fun v _ => Numeral.readWord_hexUpper _ v

theorem solid_text (i : Instruction) : ∀ x ∈ i.opcode.mnemonic.toList ::
    i.operands.map fun v => (Instruction.operandText v).toList, Solid x := by
  refine List.forall_mem_cons.mpr ⟨?_, List.forall_mem_map.mpr fun v _ => solid_hexUpper _ _⟩
  have hop := Opcode.ofMnemonic?_mnemonic i.opcode
  rw [← String.ofList_toList (s := i.opcode.mnemonic)] at hop
  exact solid_of_ofMnemonic? hop

theorem isWritten_text {i : Instruction} (h : i.wellFormed = true) : IsWritten i.text i :=
  ⟨_, _, toList_text i, solid_text i, .bare (isInstruction_text h)⟩

theorem isWritten_column (offset : Nat) {i : Instruction} (h : i.wellFormed = true) :
    IsWritten (Numeral.hexUpper 4 offset ++ ": " ++ i.text) i := by
  refine ⟨(Numeral.hexUpper 4 offset).toList ++ [':'], _, ?_,
    List.forall_mem_cons.mpr ⟨?_, solid_text i⟩,
    .column (isOffsetColumn_hexUpper 4 offset) (isInstruction_text h)⟩
  · simp [toList_text]
  · have hcolon : isBlank ':' = false := rfl
    obtain ⟨hne, hdigits⟩ := solid_hexUpper 4 offset
    refine ⟨by simp, fun c hc => ?_⟩
    rcases List.mem_append.mp hc with hc | hc
    · exact hdigits c hc
    · rwa [List.mem_singleton.mp hc]

theorem forall₂_isWritten (base : Option Nat) {code : List Instruction}
    (h : ∀ i ∈ code, i.wellFormed = true) : List.Forall₂ IsWritten (lines base code) code := by
  cases base with
  | none =>
    rw [lines, List.forall₂_map_left_iff]
    exact List.forall₂_same.mpr fun i hi => isWritten_text (h i hi)
  | some b =>
    rw [lines]
    induction code generalizing b with
    | nil => exact .nil
    | cons i code ih =>
      obtain ⟨hi, hcode⟩ := List.forall_mem_cons.mp h
      exact .cons (isWritten_column b hi) (ih hcode (b + i.width))

theorem plain_of_forall₂ {ls : List String} {code : List Instruction}
    (h : List.Forall₂ IsWritten ls code) : ∀ l ∈ ls,
    (Unbroken l.toList ∧ l.toList ≠ []) ∧ l.toList.any (!isBlank ·) = true := by
  induction h with
  | nil => simp
  | cons hs _ ih => exact List.forall_mem_cons.mpr ⟨⟨hs.unbroken, hs.filled⟩, ih⟩

/-- The lines of a text are those that were written. -/
theorem filledLines_format (base : Option Nat) {code : List Instruction}
    (h : ∀ i ∈ code, i.wellFormed = true) :
    filledLines (format base code) = (lines base code).map String.toList := by
  have hall := plain_of_forall₂ (forall₂_isWritten base h)
  have hlines : Text.lines (format base code).toList = (lines base code).map String.toList := by
    rw [format, String.toList_intercalate]
    exact lines_intercalate (List.forall_mem_map.mpr fun l hl => (hall l hl).1)
  rw [filledLines, hlines, List.filter_eq_self]
  exact List.forall_mem_map.mpr fun l hl => (hall l hl).2

theorem parse_format (base : Option Nat) {code : List Instruction}
    (h : ∀ i ∈ code, i.wellFormed = true) : parse (format base code) = .ok code := by
  rw [parse_eq, filledLines_format base h, readLines_eq_ok_iff, List.map_map,
    List.forall₂_map_left_iff]
  exact (forall₂_isWritten base h).imp fun _ _ hs => hs.isLine

/-! ## The format -/

theorem IsLine.wellFormed {words : List (List Char)} {i : Instruction} (h : IsLine words i) :
    i.wellFormed = true := by
  cases h with
  | bare h | column _ h =>
    obtain ⟨-, -, hi⟩ := h
    exact hi

theorem wellFormed_of_isLine {ls : List (List Char)} {code : List Instruction}
    (h : List.Forall₂ (fun line i => IsLine (words line) i) ls code) :
    ∀ i ∈ code, i.wellFormed = true := by
  induction h with
  | nil => simp
  | cons hl _ ih => exact List.forall_mem_cons.mpr ⟨hl.wellFormed, ih⟩

/-- **Listings are read back, and no line is passed over.**

* Code whose numbers of operands are right, and no other, is read back from its listing, with
  and without offsets.
* A text is read as code if and only if its lines that are not blank are the instructions of the
  code, one by one.
* Otherwise reading reports the fault of the first line that is no instruction, numbered among
  the lines that are not blank. -/
theorem parse_eq_iff :
    (∀ base code, parse (format base code) = .ok code ↔ ∀ i ∈ code, i.wellFormed = true) ∧
    (∀ text code, parse text = .ok code ↔
      List.Forall₂ (fun line i => IsLine (words line) i) (filledLines text) code) ∧
    ∀ text e, parse text = .error e ↔ ∃ before line more code,
      filledLines text = before ++ line :: more ∧
      List.Forall₂ (fun line i => IsLine (words line) i) before code ∧
      (∀ i, ¬ IsLine (words line) i) ∧ IsLineFault (before.length + 1) (words line) e := by
  have hok (text : String) (code : List Instruction) : parse text = .ok code ↔
      List.Forall₂ (fun line i => IsLine (words line) i) (filledLines text) code := by
    rw [parse_eq, readLines_eq_ok_iff, List.forall₂_map_left_iff]
  refine ⟨fun base code => ⟨fun h => ?_, parse_format base⟩, hok, fun text e => ?_⟩
  · exact wellFormed_of_isLine ((hok _ _).mp h)
  · rw [parse_eq, readLines_eq_error_iff]
    constructor
    · rintro ⟨before, ws, more, code, hls, hbefore, hfault⟩
      obtain ⟨before, rest, hfilled, rfl, hrest⟩ := List.map_eq_append_iff.mp hls
      obtain ⟨line, more, rfl, rfl, -⟩ := List.map_eq_cons_iff.mp hrest
      rw [List.length_map, Nat.add_comm] at hfault
      exact ⟨before, line, more, code, hfilled, List.forall₂_map_left_iff.mp hbefore,
        hfault.not_isLine, hfault⟩
    · rintro ⟨before, line, more, code, hfilled, hbefore, -, hfault⟩
      refine ⟨before.map words, words line, more.map words, code, ?_,
        List.forall₂_map_left_iff.mpr hbefore, ?_⟩
      · rw [hfilled, List.map_append, List.map_cons]
      · rwa [List.length_map, Nat.add_comm]

end MapScript.Listing
