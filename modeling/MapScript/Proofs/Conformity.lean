import MapScript.Proofs.Canonical

/-!
# Recovery follows the table

Whether an instruction succeeds on a stack of expressions, and what it leaves there, can be read off
the table of opcodes:

* it succeeds if and only if the stack holds as many values as its opcode takes;
* then it works on these alone, and completes one statement if it is one that completes any;
* where there are fewer, what is left is a lower part of the stack.

The kinds take their values in different ways, some of them one by one before they fail.  So whether
an instruction succeeds is a case for each kind (`exists_run_of_le`, `exists_run_of_lt`), and what it
leaves is a case for each effect (`worksOnTop_of_recovers`, `length_of_recovers`).
-/

namespace MapScript.Recovery

variable {i : Instruction} {s : ValueStack}

/-! ## Success and failure -/

/-- An instruction that finds its values succeeds. -/
theorem exists_run_of_le (h : i.opcode.entry.pops ≤ s.length) (line : Nat) :
    ∃ ss s', (recover i line).run s = (.ok ss, s') := by
  -- the values that are taken; the kind says how many they are
  have htaken : (s.take i.opcode.entry.pops).length = i.opcode.entry.pops := by
    rw [List.length_take, Nat.min_eq_left h]
  rw [← List.take_append_drop i.opcode.entry.pops s]
  generalize s.take i.opcode.entry.pops = taken at htaken
  generalize s.drop i.opcode.entry.pops = below
  have hlen {pops : Nat} {result : Bool} (he : i.kind.effect? = some (pops, result)) :
      taken.length = pops := htaken.trans (Opcode.effect_of_kind he).1
  cases hk : i.kind with
  | nop => exact ⟨_, _, run_recover_nop hk line _⟩
  | reset => exact ⟨_, _, run_recover_reset hk line _⟩
  | push source => exact ⟨_, _, run_recover_push hk line _⟩
  | ret => exact ⟨_, _, run_recover_ret hk line _⟩
  | goto | gotoIfFalse =>
    unfold recover
    simp only [hk]
    exact ⟨_, _, rfl⟩
  | math m =>
    have hlen := hlen (congrArg Kind.effect? hk)
    cases hm : Operator.ofMath m with
    | unary u =>
      obtain rfl := Operator.ofMath_eq_unary_iff.mp hm
      rw [u.isUnary_math] at hlen
      obtain ⟨e, rfl⟩ := List.length_eq_one_iff.mp hlen
      exact ⟨_, _, run_recover_unary hk line e below⟩
    | binary b =>
      have hb := Operator.ofMath_eq_binary_iff.mp hm
      rw [BinaryOp.isUnary_of_math? hb] at hlen
      obtain ⟨y, x, rfl⟩ := List.length_eq_two.mp hlen
      exact ⟨_, _, run_recover_binary hk hb line x y below⟩
  | write =>
    obtain ⟨y, x, rfl⟩ := List.length_eq_two.mp (hlen (congrArg Kind.effect? hk))
    exact ⟨_, _, run_recover_write hk line x y below⟩
  | callFunction =>
    obtain ⟨e, rfl⟩ := List.length_eq_one_iff.mp (hlen (congrArg Kind.effect? hk))
    exact ⟨_, _, run_recover_call hk line e below⟩
  | generic =>
    by_cases hw : i.opcode = .wait
    · have hone : Opcode.wait.entry.pops = 1 := by decide
      obtain ⟨e, rfl⟩ := List.length_eq_one_iff.mp (htaken.trans (by rw [hw, hone]))
      cases he : waitFramesArgs? e with
      | some args =>
        rw [eq_call_of_waitFramesArgs? he]
        exact ⟨_, _, run_recover_wait hw line args below⟩
      | none => exact ⟨_, _, run_recover_uncounted hw he line below⟩
    · have hrun := run_recover_generic hk hw (List.length_reverse.trans htaken) line below
      rw [List.reverse_reverse] at hrun
      rw [hrun]
      split <;> exact ⟨_, _, rfl⟩

/-- An instruction that does not find its values fails, and leaves a lower part of the stack. -/
theorem exists_run_of_lt (hj : i.kind.isJump = false) (h : s.length < i.opcode.entry.pops)
    (line : Nat) : ∃ e s', (recover i line).run s = (.error e, s') ∧ s' <:+ s := by
  have hlt {pops : Nat} {result : Bool} (he : i.kind.effect? = some (pops, result)) :
      s.length < pops := (Opcode.effect_of_kind he).1 ▸ h
  have hcall (op : Opcode) (hop : s.length < op.entry.pops) :
      (recoverCall line op).run s =
        (.error (.stackUnderflow line op.mnemonic op.entry.pops s.length), s) :=
    run_bind_error (ValueStack.run_takeTop_of_lt hop line op)
  unfold recover
  cases hk : i.kind with
  | nop | reset | push _ | ret =>
    exact absurd (hlt (congrArg Kind.effect? hk)) (Nat.not_lt_zero _)
  | goto | gotoIfFalse =>
    rw [hk] at hj
    cases hj
  | math m =>
    have hlt := hlt (congrArg Kind.effect? hk)
    cases hm : Operator.ofMath m with
    | unary u =>
      obtain rfl := Operator.ofMath_eq_unary_iff.mp hm
      rw [u.isUnary_math] at hlt
      obtain rfl := List.length_eq_zero_iff.mp (Nat.lt_one_iff.mp hlt)
      simp only [hm]
      exact ⟨_, _, rfl, List.suffix_refl _⟩
    | binary b =>
      rw [BinaryOp.isUnary_of_math? (Operator.ofMath_eq_binary_iff.mp hm)] at hlt
      simp only [hm]
      match s, hlt with
      | [], _ | [_], _ => exact ⟨_, _, rfl, List.suffix_refl _⟩
  | write =>
    -- the value is gone by the time that the target is missed
    match s, hlt (congrArg Kind.effect? hk) with
    | [], _ | [_], _ => exact ⟨_, _, rfl, List.nil_suffix⟩
  | callFunction =>
    obtain rfl := List.length_eq_zero_iff.mp (Nat.lt_one_iff.mp (hlt (congrArg Kind.effect? hk)))
    exact ⟨_, _, rfl, List.suffix_refl _⟩
  | generic =>
    by_cases hw : i.opcode = .wait
    · have hone : Opcode.wait.entry.pops = 1 := by decide
      rw [hw, hone] at h
      obtain rfl := List.length_eq_zero_iff.mp (Nat.lt_one_iff.mp h)
      simp only [hw, if_true]
      exact ⟨_, _, hcall .wait (by rw [hone]; exact h), List.suffix_refl _⟩
    · simp only [hw, if_false]
      exact ⟨_, _, hcall i.opcode h, List.suffix_refl _⟩

/-! ## What success leaves -/

/-- An instruction completes one statement if it is one that completes any. -/
theorem length_of_recovers {s' : ValueStack} {ss : List Stmt} (h : Recovers i s ss s') :
    ss.length = if i.isStatement then 1 else 0 := by
  cases h with
  | idle hk =>
    have hs : i.isStatement = false := by
      rcases hk with hk | hk
      · simp [Instruction.isStatement, hk]
      · unfold Instruction.isStatement
        cases hkind : i.kind <;> rw [hkind] at hk <;> first | rfl | cases hk
    rw [hs]
    rfl
  | wait hw =>
    have hs : i.isStatement = true := by
      rw [Instruction.isStatement, Instruction.kind, hw]
      decide
    rw [hs]
    rfl
  | reset hk | push hk | unary hk | binary hk | write hk | callFunction hk | ret hk =>
    simp [Instruction.isStatement, hk]
  | value hk _ hres | call hk _ hres => simp [Instruction.isStatement, hk, hres]

/-- **Recovery follows the table.**  An instruction that is no reset and no jump succeeds if and only
if the stack holds the values that its opcode takes.  Then it puts its result, if it has one, in
their place, and completes one statement if it writes, calls, returns or calls the engine for no
result.  If it fails it completes none, and a lower part of the stack is left. -/
theorem recover_follows_table (hr : i.kind ≠ .reset) (hj : i.kind.isJump = false) (line : Nat)
    (s : ValueStack) :
    ((∃ ss s', (recover i line).run s = (.ok ss, s')) ↔ i.opcode.entry.pops ≤ s.length) ∧
    (∀ ss s', (recover i line).run s = (.ok ss, s') →
      (∃ left, s' = left ++ s.drop i.opcode.entry.pops ∧
        left.length = if i.opcode.entry.pushesResult then 1 else 0) ∧
      s'.length = s.length - i.opcode.entry.pops +
        (if i.opcode.entry.pushesResult then 1 else 0) ∧
      ss.length = if i.isStatement then 1 else 0) ∧
    ∀ e s', (recover i line).run s = (.error e, s') → s' <:+ s := by
  have hle : ∀ ss s', (recover i line).run s = (.ok ss, s') → i.opcode.entry.pops ≤ s.length :=
    fun ss s' h => (depth_of_recovers hj (recovers_of_run h)).1
  refine ⟨⟨fun ⟨ss, s', h⟩ => hle ss s' h, fun h => exists_run_of_le h line⟩, ?_, ?_⟩
  · intro ss s' h
    have hrec := recovers_of_run h
    obtain ⟨taken, left, below, hs, rfl, htaken, hleft⟩ := worksOnTop_of_recovers hr hj hrec
    have hbelow : s.drop i.opcode.entry.pops = below := by rw [hs, ← htaken, List.drop_left]
    refine ⟨⟨left, by rw [hbelow], hleft⟩, ?_, length_of_recovers hrec⟩
    rw [hs, List.length_append, List.length_append, htaken, hleft]
    omega
  · intro e s' h
    rcases Nat.lt_or_ge s.length i.opcode.entry.pops with hlt | hge
    · obtain ⟨e', s1, hrun, hsuffix⟩ := exists_run_of_lt hj hlt line
      rw [hrun] at h
      cases h
      exact hsuffix
    · obtain ⟨ss, s1, hrun⟩ := exists_run_of_le hge line
      rw [hrun] at h
      cases h

/-- An assignment with one value below what it takes, and one whose target is missing. -/
theorem recover_follows_table_write :
    (∃ ss, (recover ⟨.write, []⟩ 1).run [.num 1, .num 2, .num 3] = (.ok ss, [.num 3]) ∧
      ss.length = 1) ∧
    ∃ e s', (recover ⟨.write, []⟩ 1).run [.num 1] = (.error e, s') ∧ s' <:+ [.num 1] := by
  have hpops : Opcode.write.entry.pops = 2 := by decide
  have hres : Opcode.write.entry.pushesResult = false := by decide
  have htable := recover_follows_table (i := ⟨.write, []⟩) (by decide) (by decide) 1
  constructor
  · obtain ⟨hiff, hok, -⟩ := htable [.num 1, .num 2, .num 3]
    obtain ⟨ss, s', hrun⟩ := hiff.mpr (by rw [hpops]; decide)
    obtain ⟨⟨left, hs', hleft⟩, -, hlen⟩ := hok ss s' hrun
    rw [hres] at hleft
    obtain rfl := List.length_eq_zero_iff.mp hleft
    rw [hpops] at hs'
    obtain rfl : s' = [.num 3] := hs'
    exact ⟨ss, hrun, hlen⟩
  · obtain ⟨hiff, -, herror⟩ := htable [.num 1]
    rcases hrun : (recover ⟨.write, []⟩ 1).run [.num 1] with ⟨e | ss, s'⟩
    · exact ⟨e, s', rfl, herror e s' hrun⟩
    · have hle := hiff.mp ⟨ss, s', hrun⟩
      rw [hpops] at hle
      exact absurd hle (by decide)

end MapScript.Recovery
