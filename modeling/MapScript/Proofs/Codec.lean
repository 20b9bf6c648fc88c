import MapScript.Proofs.Linked

/-!
# Code as words, and words as bytes

The words of code are those of its instructions, one behind the other.  Reading and writing both
say just this, so that they are inverse to each other:

    encode code = .ok ws ↔ all of the code is well-formed ∧ ws = code.flatMap words
    decode ws = .ok code ↔ all of the code is well-formed ∧ ws = code.flatMap words

Words that are not code start with instructions up to a place where none can be read (`Stuck`), and
reading reports that place (`decodeFrom_eq_error_iff`).
-/

namespace MapScript

/-- The words of an instruction. -/
def Instruction.words (i : Instruction) : List UInt16 := i.opcode.code :: i.operands

namespace Bytecode

open Instruction

/-! ## Writing -/

theorem encodeFrom_eq_ok_iff {index : Nat} {code : List Instruction} {ws : List UInt16} :
    encodeFrom index code = .ok ws ↔
      (∀ i ∈ code, i.wellFormed = true) ∧ ws = code.flatMap words := by
  induction code generalizing index ws with
  | nil =>
    simp only [encodeFrom, List.flatMap_nil, Except.ok.injEq]
    constructor
    · rintro rfl
      exact ⟨nofun, rfl⟩
    · rintro ⟨-, rfl⟩
      rfl
  | cons i code ih =>
    rw [encodeFrom, List.forall_mem_cons, List.flatMap_cons]
    split
    · next hw =>
      rw [bind_eq_ok]
      constructor
      · rintro ⟨more, hm, h⟩
        cases h
        obtain ⟨hwf, rfl⟩ := ih.mp hm
        exact ⟨⟨hw, hwf⟩, rfl⟩
      · rintro ⟨⟨-, hwf⟩, rfl⟩
        exact ⟨_, ih.mpr ⟨hwf, rfl⟩, rfl⟩
    · next hw =>
      constructor
      · intro h
        cases h
      · rintro ⟨⟨hw', -⟩, -⟩
        exact absurd hw' hw

/-- Code with the right number of operands has words. -/
theorem encodeFrom_eq_ok {code : List Instruction} (h : ∀ i ∈ code, i.wellFormed = true)
    (index : Nat) : ∃ ws, encodeFrom index code = .ok ws :=
  ⟨_, encodeFrom_eq_ok_iff.mpr ⟨h, rfl⟩⟩

/-! ## Reading -/

/-- Why no instruction can be read off the front of words, the first of which has the given
index. -/
inductive Stuck (index : Nat) : List UInt16 → DecodeError → Prop
  | unknown {code : UInt16} {rest : List UInt16} : Opcode.ofCode? code = none →
    Stuck index (code :: rest) (.unknownOpcode index code)
  | truncated {code : UInt16} {op : Opcode} {rest : List UInt16} : Opcode.ofCode? code = some op →
    rest.length < op.arity → Stuck index (code :: rest) (.truncated index)

theorem decodeFrom_of_stuck {index : Nat} {ws : List UInt16} {e : DecodeError}
    (h : Stuck index ws e) : decodeFrom index ws = .error e := by
  cases h with
  | unknown hc => rw [decodeFrom, hc]
  | truncated hc hlen =>
    rw [decodeFrom, hc]
    exact if_pos hlen

/-- The words of an instruction are read as it, and then reading goes on. -/
theorem decodeFrom_words {i : Instruction} (hw : i.wellFormed = true) (index : Nat)
    (rest : List UInt16) : decodeFrom index (i.words ++ rest) =
      (decodeFrom (index + i.words.length) rest).map (i :: ·) := by
  have hlen : i.operands.length = i.opcode.arity := by simpa [Instruction.wellFormed] using hw
  have htake : (i.operands ++ rest).take i.opcode.arity = i.operands := by
    rw [← hlen, List.take_left]
  have hdrop : (i.operands ++ rest).drop i.opcode.arity = rest := by
    rw [← hlen, List.drop_left]
  have hindex : index + i.words.length = index + 1 + i.opcode.arity := by
    rw [words, List.length_cons, hlen]
    omega
  rw [words, List.cons_append, decodeFrom, Opcode.ofCode?_code, ← words, hindex]
  simp only [htake, hdrop]
  rw [if_neg (by rw [List.length_append]; omega)]
  cases decodeFrom (index + 1 + i.opcode.arity) rest <;> rfl

theorem decodeFrom_flatMap {code : List Instruction} (hw : ∀ i ∈ code, i.wellFormed = true)
    (index : Nat) (rest : List UInt16) : decodeFrom index (code.flatMap words ++ rest) =
      (decodeFrom (index + (code.flatMap words).length) rest).map (code ++ ·) := by
  induction code generalizing index with
  | nil =>
    show decodeFrom index rest = (decodeFrom index rest).map id
    cases decodeFrom index rest <;> rfl
  | cons i code ih =>
    obtain ⟨hi, hcode⟩ := List.forall_mem_cons.mp hw
    rw [List.flatMap_cons, List.append_assoc, decodeFrom_words hi, ih hcode, List.length_append,
      ← Nat.add_assoc]
    cases decodeFrom (index + i.words.length + (code.flatMap words).length) rest <;> rfl

/-- Words are instructions up to their end, or up to a place where none can be read. -/
theorem exists_code_append (index : Nat) (ws : List UInt16) :
    ∃ (code : List Instruction) (rest : List UInt16),
    (∀ i ∈ code, i.wellFormed = true) ∧ ws = code.flatMap words ++ rest ∧
      (rest = [] ∨ ∃ e, Stuck (index + (code.flatMap words).length) rest e) := by
  induction hn : ws.length using Nat.strongRecOn generalizing index ws with
  | ind n ih =>
    subst hn
    cases ws with
    | nil => exact ⟨[], [], nofun, rfl, .inl rfl⟩
    | cons c ws =>
      cases hc : Opcode.ofCode? c with
      | none => exact ⟨[], c :: ws, nofun, rfl, .inr ⟨_, .unknown hc⟩⟩
      | some op =>
        by_cases hlen : ws.length < op.arity
        · exact ⟨[], c :: ws, nofun, rfl, .inr ⟨_, .truncated hc hlen⟩⟩
        · have htake : (ws.take op.arity).length = op.arity := List.length_take_of_le (by omega)
          have hfirst : c :: ws = words ⟨op, ws.take op.arity⟩ ++ ws.drop op.arity := by
            rw [words, Opcode.code_of_ofCode? hc, List.cons_append, List.take_append_drop]
          have hwidth : (words ⟨op, ws.take op.arity⟩).length = 1 + op.arity := by
            rw [words, List.length_cons, htake]
            omega
          obtain ⟨code, rest, hw, hws, hrest⟩ := ih (ws.drop op.arity).length
            (by rw [List.length_drop, List.length_cons]; omega) (index + (1 + op.arity)) _ rfl
          refine ⟨⟨op, ws.take op.arity⟩ :: code, rest, ?_, ?_, ?_⟩
          · exact List.forall_mem_cons.mpr ⟨beq_iff_eq.mpr htake, hw⟩
          · rw [List.flatMap_cons, List.append_assoc, ← hws, hfirst]
          · rwa [List.flatMap_cons, List.length_append, hwidth, ← Nat.add_assoc]

theorem decodeFrom_eq_ok_iff {index : Nat} {code : List Instruction} {ws : List UInt16} :
    decodeFrom index ws = .ok code ↔
      (∀ i ∈ code, i.wellFormed = true) ∧ ws = code.flatMap words := by
  constructor
  · intro h
    obtain ⟨code', rest, hw, rfl, rfl | ⟨e, he⟩⟩ := exists_code_append index ws
    · rw [decodeFrom_flatMap hw, decodeFrom] at h
      cases h
      exact ⟨by simpa using hw, by simp⟩
    · rw [decodeFrom_flatMap hw, decodeFrom_of_stuck he] at h
      cases h
  · rintro ⟨hw, rfl⟩
    have h := decodeFrom_flatMap hw index []
    rw [decodeFrom, List.append_nil] at h
    rw [h]
    exact congrArg Except.ok (List.append_nil code)

/-- **The place of an error** is the first one behind readable code where reading is stuck. -/
theorem decodeFrom_eq_error_iff {index : Nat} {ws : List UInt16} {e : DecodeError} :
    decodeFrom index ws = .error e ↔ ∃ (code : List Instruction) (rest : List UInt16),
      (∀ i ∈ code, i.wellFormed = true) ∧ ws = code.flatMap words ++ rest ∧
      Stuck (index + (code.flatMap words).length) rest e := by
  constructor
  · intro h
    obtain ⟨code, rest, hw, rfl, rfl | ⟨e', he⟩⟩ := exists_code_append index ws
    · rw [decodeFrom_flatMap hw, decodeFrom] at h
      cases h
    · rw [decodeFrom_flatMap hw, decodeFrom_of_stuck he] at h
      cases h
      exact ⟨code, rest, hw, rfl, he⟩
  · rintro ⟨code, rest, hw, rfl, he⟩
    rw [decodeFrom_flatMap hw, decodeFrom_of_stuck he]
    rfl

/-- What was written is read back. -/
theorem decodeFrom_of_encodeFrom {code : List Instruction} {ws : List UInt16} {index : Nat}
    (h : encodeFrom index code = .ok ws) (index' : Nat) : decodeFrom index' ws = .ok code :=
  decodeFrom_eq_ok_iff.mpr (encodeFrom_eq_ok_iff.mp h)

/-- Reading stops at a word if all words before it are code and none can be read from there on. -/
theorem decode_eq_error_iff {ws : List UInt16} {e : DecodeError} :
    decode ws = .error e ↔
      ∃ i, (∃ code, decode (ws.take i) = .ok code) ∧ Stuck i (ws.drop i) e := by
  rw [decode, decodeFrom_eq_error_iff]
  constructor
  · rintro ⟨code, rest, hw, rfl, he⟩
    refine ⟨(code.flatMap words).length, ⟨code, ?_⟩, ?_⟩
    · rw [List.take_left]
      exact decodeFrom_eq_ok_iff.mpr ⟨hw, rfl⟩
    · rw [List.drop_left]
      rwa [Nat.zero_add] at he
  · rintro ⟨i, ⟨code, hcode⟩, he⟩
    obtain ⟨hw, htake⟩ := decodeFrom_eq_ok_iff.mp hcode
    -- nothing is stuck at the end, so there are `i` words in front
    have hlt : i < ws.length := by
      rcases Nat.lt_or_ge i ws.length with hlt | hge
      · exact hlt
      · rw [List.drop_eq_nil_of_le hge] at he
        cases he
    refine ⟨code, ws.drop i, hw, ?_, ?_⟩
    · rw [← htake, List.take_append_drop]
    · rwa [Nat.zero_add, ← htake, List.length_take_of_le (Nat.le_of_lt hlt)]

theorem stuck_drop_iff {i : Nat} {ws : List UInt16} {e : DecodeError} :
    Stuck i (ws.drop i) e ↔ ∃ c, ws[i]? = some c ∧
      ((Opcode.ofCode? c = none ∧ e = .unknownOpcode i c) ∨
        ∃ op, Opcode.ofCode? c = some op ∧ ws.length < i + 1 + op.arity ∧ e = .truncated i) := by
  have hdrop {c : UInt16} {rest : List UInt16} (h : ws.drop i = c :: rest) :
      ws[i]? = some c ∧ ws.length = i + 1 + rest.length := by
    have hlen := congrArg List.length h
    rw [List.length_drop, List.length_cons] at hlen
    refine ⟨?_, by omega⟩
    rw [← List.head?_drop, h]
    rfl
  constructor
  · intro h
    generalize hws : ws.drop i = tail at h
    cases h with
    | unknown hc => exact ⟨_, (hdrop hws).1, .inl ⟨hc, rfl⟩⟩
    | truncated hc hlen =>
      obtain ⟨hget, hlength⟩ := hdrop hws
      exact ⟨_, hget, .inr ⟨_, hc, by omega, rfl⟩⟩
  · rintro ⟨c, hget, h⟩
    rw [← List.head?_drop] at hget
    obtain ⟨rest, hrest⟩ := List.head?_eq_some_iff.mp hget
    rw [hrest]
    obtain ⟨-, hlength⟩ := hdrop hrest
    rcases h with ⟨hc, rfl⟩ | ⟨op, hc, hlen, rfl⟩
    · exact .unknown hc
    · exact .truncated hc (by omega)

/-! ## Bytes -/

theorem word_of_bytes (low high : UInt8) :
    (low.toUInt16 + high.toUInt16 * 0x100).toNat = low.toNat + 256 * high.toNat := by
  have hl := low.toNat_lt
  have hh := high.toNat_lt
  simp only [UInt16.toNat_add, UInt16.toNat_mul, UInt8.toNat_toUInt16, UInt16.reduceToNat]
  omega

theorem bytes_of_word (w : UInt16) :
    w.toUInt8.toNat = w.toNat % 256 ∧ (w >>> 8).toUInt8.toNat = w.toNat / 256 := by
  have hw := w.toNat_lt
  have h8 : (8 : UInt16).toNat % 16 = 8 := rfl
  rw [UInt16.toNat_toUInt8, UInt16.toNat_toUInt8, UInt16.toNat_shiftRight, h8,
    Nat.shiftRight_eq_div_pow]
  omega

@[simp] theorem length_bytesOfWords (ws : List UInt16) :
    (bytesOfWords ws).length = 2 * ws.length := by
  induction ws with
  | nil => rfl
  | cons w ws ih =>
    rw [bytesOfWords, List.length_cons, List.length_cons, List.length_cons, ih]
    omega

theorem wordsOfPairs_bytesOfWords (ws : List UInt16) : wordsOfPairs (bytesOfWords ws) = ws := by
  induction ws with
  | nil => rfl
  | cons w ws ih =>
    rw [bytesOfWords, wordsOfPairs, ih]
    congr 1
    apply UInt16.toNat_inj.mp
    rw [word_of_bytes, (bytes_of_word w).1, (bytes_of_word w).2]
    omega

theorem bytesOfWords_wordsOfPairs {bytes : List UInt8} (h : bytes.length % 2 = 0) :
    bytesOfWords (wordsOfPairs bytes) = bytes := by
  fun_induction wordsOfPairs bytes with
  | case1 low high rest ih =>
    have hrest : rest.length % 2 = 0 := by
      simp only [List.length_cons] at h
      omega
    have hl := low.toNat_lt
    have hh := high.toNat_lt
    rw [bytesOfWords, ih hrest]
    congr 1
    · apply UInt8.toNat_inj.mp
      rw [(bytes_of_word _).1, word_of_bytes]
      omega
    · congr 1
      apply UInt8.toNat_inj.mp
      rw [(bytes_of_word _).2, word_of_bytes]
      omega
  | case2 bytes hne =>
    match bytes, hne with
    | [], _ => rfl
    | [_], _ => cases h
    | low :: high :: rest, hne => exact absurd rfl (hne low high rest)

/-! ## The format -/

/-- **Words and code are in bijection**, as are bytes of even number and words.

* Every opcode is found by its code, and code has words if its numbers of operands are right.
* Words are read as code if and only if the code is written as these words.
* Reading fails at a word exactly if all words before it are code, and it is no opcode or the end
  cuts its operands off.
* Words are read back from their bytes, and bytes are those of words if their number is even. -/
theorem decode_eq_ok_iff_encode :
    (∀ op : Opcode, Opcode.ofCode? op.code = some op) ∧
    (∀ code, (∃ ws, encode code = .ok ws) ↔ ∀ i ∈ code, i.wellFormed = true) ∧
    (∀ ws code, decode ws = .ok code ↔ encode code = .ok ws) ∧
    (∀ ws e, decode ws = .error e ↔ ∃ i c, (∃ code, decode (ws.take i) = .ok code) ∧
      ws[i]? = some c ∧ ((Opcode.ofCode? c = none ∧ e = .unknownOpcode i c) ∨
        ∃ op, Opcode.ofCode? c = some op ∧ ws.length < i + 1 + op.arity ∧ e = .truncated i)) ∧
    (∀ ws, wordsOfBytes (bytesOfWords ws) = .ok ws) ∧
    ∀ bytes : List UInt8, bytes.length % 2 = 0 ↔
      ∃ ws, wordsOfBytes bytes = .ok ws ∧ bytesOfWords ws = bytes := by
  refine ⟨Opcode.ofCode?_code, ?_, ?_, ?_, ?_, ?_⟩
  · intro code
    exact ⟨fun ⟨_, h⟩ => (encodeFrom_eq_ok_iff.mp h).1, fun h => encodeFrom_eq_ok h 0⟩
  · intro ws code
    rw [decode, encode, decodeFrom_eq_ok_iff, encodeFrom_eq_ok_iff]
  · intro ws e
    simp only [decode_eq_error_iff, stuck_drop_iff, exists_and_left]
  · intro ws
    have heven : (bytesOfWords ws).length % 2 = 0 := by
      rw [length_bytesOfWords]
      omega
    rw [wordsOfBytes, if_pos heven, wordsOfPairs_bytesOfWords]
  · intro bytes
    constructor
    · intro h
      exact ⟨wordsOfPairs bytes, if_pos h, bytesOfWords_wordsOfPairs h⟩
    · rintro ⟨ws, -, rfl⟩
      rw [length_bytesOfWords]
      omega

end Bytecode

end MapScript
