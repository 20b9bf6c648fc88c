import MapScript.Proofs.Grammar

/-!
# What is read is derived

The other half of the grammar: readers take nothing but derivations off the tokens, and leave
nothing that would go on with what they took.  An expression between brackets is read off fewer
tokens than the one around it, so that the readers of operands, operators and arguments are each
checked under the assumption that shorter expressions are derived (`Sound`).

With it, a script is read if and only if it is derived (`parse_eq_ok_iff_statements`).
-/

namespace MapScript.Grammar

open Script

/-! ## Expressions -/

/-- What is read as an expression off fewer than `n` tokens is derived, and what is left does not go
on with it. -/
def Sound (n : Nat) : Prop :=
  ∀ {k : Nat} {tokens rest : List Token} {e : Expr}, k ≤ 8 → tokens.length < n →
    outcome (readBinary (k + 1) tokens) = .ok (e, rest) →
    ∃ xs, tokens = xs ++ rest ∧ Level (k + 1) e xs ∧ Loose k rest

section

variable {n : Nat}

/-- Behind an argument stands the closing parenthesis, or a comma and more arguments. -/
theorem cases_of_readArgumentsTail {tokens rest : List Token} {args : List Expr}
    (h : outcome (readArgumentsTail tokens) = .ok (args, rest)) :
    (args = [] ∧ ∃ line, tokens = ⟨.parenClose, line⟩ :: rest) ∨
      ∃ line more, tokens = ⟨.comma, line⟩ :: more ∧
        outcome (readMoreArguments more) = .ok (args, rest) := by
  unfold readArgumentsTail at h
  split at h
  · next line more =>
    obtain ⟨args, rest, _, hx, h⟩ := exists_outcome_of_bind h
    cases h
    exact .inr ⟨line, more, rfl, hx⟩
  · obtain ⟨_, rest, _, hx, h⟩ := exists_outcome_of_bind h
    cases h
    exact .inl ⟨rfl, eq_cons_of_readLexeme hx⟩

theorem exists_moreArguments (hn : Sound n) (tokens : List Token) (hlen : tokens.length < n)
    {args : List Expr} {rest : List Token}
    (h : outcome (readMoreArguments tokens) = .ok (args, rest)) :
    ∃ xs line, tokens = xs ++ ⟨.parenClose, line⟩ :: rest ∧ MoreArguments args xs := by
  rw [readMoreArguments] at h
  obtain ⟨arg, mid, hmid, hx, h⟩ := exists_outcome_of_bind h
  obtain ⟨args, rest, _, hy, h⟩ := exists_outcome_of_bind h
  cases h
  obtain ⟨xs, rfl, hxs, -⟩ := hn (Nat.zero_le 8) hlen hx
  rcases cases_of_readArgumentsTail hy with ⟨rfl, line, rfl⟩ | ⟨line, more, rfl, hmore⟩
  · exact ⟨xs, line, rfl, .one hxs⟩
  · obtain ⟨ys, line', rfl, hys⟩ := exists_moreArguments hn more (by simp at hlen; omega) hmore
    exact ⟨xs ++ ⟨.comma, line⟩ :: ys, line', by simp, .cons hxs hys⟩
termination_by tokens.length

theorem exists_arguments (hn : Sound n) {tokens : List Token} (hlen : tokens.length < n)
    {args : List Expr} {rest : List Token}
    (h : outcome (readArguments tokens) = .ok (args, rest)) :
    ∃ xs line, tokens = xs ++ ⟨.parenClose, line⟩ :: rest ∧ Arguments args xs := by
  unfold readArguments at h
  split at h
  · next line more =>
    cases h
    exact ⟨[], line, rfl, .none⟩
  · obtain ⟨xs, line, hxs, hargs⟩ := exists_moreArguments hn tokens hlen h
    exact ⟨xs, line, hxs, .some hargs⟩

theorem exists_primary (hn : Sound n) {tokens : List Token} (hlen : tokens.length ≤ n) {e : Expr}
    {rest : List Token} (h : outcome (readPrimary tokens) = .ok (e, rest)) :
    ∃ xs, tokens = xs ++ rest ∧ Primary e xs := by
  unfold readPrimary at h
  split at h
  · next lit line more =>
    cases h
    exact ⟨_, rfl, .number lit⟩
  · next name line more =>
    cases h
    exact ⟨_, rfl, .ident name⟩
  · next line more =>
    obtain ⟨e, mid, _, hx, h⟩ := exists_outcome_of_bind h
    obtain ⟨_, rest, _, hy, h⟩ := exists_outcome_of_bind h
    cases h
    obtain ⟨line', rfl⟩ := eq_cons_of_readLexeme hy
    obtain ⟨xs, rfl, hxs, -⟩ := hn (Nat.zero_le 8) hlen hx
    exact ⟨⟨.parenOpen, line⟩ :: xs ++ [⟨.parenClose, line'⟩], by simp, .paren hxs⟩
  · cases h

theorem exists_chain (hn : Sound n) (tokens : List Token) (hlen : tokens.length ≤ n)
    {e e' : Expr} {xs rest : List Token} (he : Chain e xs)
    (h : outcome (readPostfix e tokens) = .ok (e', rest)) :
    ∃ ys, tokens = ys ++ rest ∧ Chain e' (xs ++ ys) ∧
      ∀ t ∈ rest.head?, t.lexeme.isPostfix = false := by
  unfold readPostfix at h
  split at h
  · next line more =>
    obtain ⟨name, mid, hmid, hx, h⟩ := exists_outcome_of_bind h
    obtain ⟨e', rest, _, hy, h⟩ := exists_outcome_of_bind h
    cases h
    obtain ⟨line', rfl⟩ := eq_cons_of_readName hx
    have hmember : Chain (.member e name) (xs ++ [⟨.dot, line⟩, ⟨.ident name, line'⟩]) :=
      .member name he
    obtain ⟨ys, rfl, hys, hapart⟩ := exists_chain hn mid (by simp at hlen; omega) hmember hy
    exact ⟨⟨.dot, line⟩ :: ⟨.ident name, line'⟩ :: ys, rfl, by simpa using hys, hapart⟩
  · next line more =>
    obtain ⟨i, mid, hmid, hx, h⟩ := exists_outcome_of_bind h
    obtain ⟨_, behind, hbehind, hy, h⟩ := exists_outcome_of_bind h
    obtain ⟨e', rest, _, hz, h⟩ := exists_outcome_of_bind h
    cases h
    obtain ⟨line', rfl⟩ := eq_cons_of_readLexeme hy
    obtain ⟨is, rfl, his, -⟩ := hn (Nat.zero_le 8) hlen hx
    have hindex : Chain (.index e i)
        (xs ++ ⟨.bracketOpen, line⟩ :: is ++ [⟨.bracketClose, line'⟩]) := .index he his
    obtain ⟨ys, rfl, hys, hapart⟩ := exists_chain hn behind (by simp at hlen; omega) hindex hz
    exact ⟨⟨.bracketOpen, line⟩ :: is ++ ⟨.bracketClose, line'⟩ :: ys, by simp,
      by simpa using hys, hapart⟩
  · next line more =>
    obtain ⟨args, mid, hmid, hx, h⟩ := exists_outcome_of_bind h
    obtain ⟨e', rest, _, hy, h⟩ := exists_outcome_of_bind h
    cases h
    obtain ⟨as, line', rfl, has⟩ := exists_arguments hn hlen hx
    have hcall : Chain (.call e args)
        (xs ++ ⟨.parenOpen, line⟩ :: as ++ [⟨.parenClose, line'⟩]) := .call he has
    obtain ⟨ys, rfl, hys, hapart⟩ := exists_chain hn mid (by simp at hlen; omega) hcall hy
    exact ⟨⟨.parenOpen, line⟩ :: as ++ ⟨.parenClose, line'⟩ :: ys, by simp,
      by simpa using hys, hapart⟩
  · next hdot hbracket hparen =>
    cases h
    refine ⟨[], rfl, by simpa using he, ?_⟩
    rintro ⟨l, line⟩ ht
    obtain ⟨more, rfl⟩ := List.head?_eq_some_iff.mp ht
    cases l with
    | dot => exact absurd rfl (hdot _ _)
    | bracketOpen => exact absurd rfl (hbracket _ _)
    | parenOpen => exact absurd rfl (hparen _ _)
    | _ => rfl
termination_by tokens.length

theorem exists_operand (hn : Sound n) (tokens : List Token) (hlen : tokens.length ≤ n) {e : Expr}
    {rest : List Token} (h : outcome (readUnary tokens) = .ok (e, rest)) :
    ∃ xs, tokens = xs ++ rest ∧ Operand e xs ∧ ∀ t ∈ rest.head?, t.lexeme.isPostfix = false := by
  induction tokens generalizing e with
  | nil =>
    rw [readUnary] at h
    cases h
  | cons t more ih =>
    rw [readUnary] at h
    split at h
    · next op ht =>
      obtain ⟨e, rest, _, hx, h⟩ := exists_outcome_of_bind h
      cases h
      obtain ⟨xs, hxs, ho, hapart⟩ := ih (Nat.le_of_succ_le hlen) hx
      exact ⟨t :: xs, congrArg (t :: ·) hxs, .sign ht ho, hapart⟩
    · obtain ⟨e, mid, hmid, hx, h⟩ := exists_outcome_of_bind h
      obtain ⟨e', rest, _, hy, h⟩ := exists_outcome_of_bind h
      cases h
      obtain ⟨xs, hxs, hp⟩ := exists_primary hn hlen hx
      obtain ⟨ys, rfl, hys, hapart⟩ := exists_chain hn mid (by omega) (.primary hp) hy
      exact ⟨xs ++ ys, by simpa using hxs, .chain hys, hapart⟩

/-- Operators are taken in falling precedence: behind an operation of level `m`, the next operator
binds no tighter than `m`. -/
theorem exists_operations (hn : Sound n) (tokens : List Token) (hlen : tokens.length ≤ n)
    {k m : Nat} {lhs e : Expr} {xs rest : List Token} (hl : Level m lhs xs) (hkm : k + 1 ≤ m)
    (hloose : Loose m tokens)
    (h : outcome (readOperations (k + 1) lhs tokens) = .ok (e, rest)) :
    ∃ ys, tokens = ys ++ rest ∧ Level (k + 1) e (xs ++ ys) ∧ Loose k rest := by
  unfold readOperations at h
  split at h
  · cases h
    exact ⟨[], rfl, by simpa using hl.mono hkm, by simp, by simp⟩
  · next t more =>
    split at h
    · next ht =>
      cases h
      refine ⟨[], rfl, by simpa using hl.mono hkm, hloose.apart, ?_⟩
      rintro t' ⟨⟩ op hop
      rw [ht] at hop
      cases hop
    · next op ht =>
      split at h
      · next hlt =>
        cases h
        have ht' : Loose op.precedence (t :: more) := .of_binaryOp? ht
        exact ⟨[], rfl, by simpa using hl.mono hkm, ht'.mono (by omega)⟩
      · next hle =>
        obtain ⟨rhs, mid, hmid, hx, h⟩ := exists_outcome_of_bind h
        obtain ⟨e, rest, _, hy, h⟩ := exists_outcome_of_bind h
        cases h
        obtain ⟨ys, rfl, hys, hmids⟩ := hn op.precedence_le hlen hx
        have hleft : Level op.precedence lhs xs := hl.mono (hloose.loose t rfl op ht)
        obtain ⟨zs, rfl, hzs, hrest⟩ := exists_operations hn mid (by simp at hlen; omega)
          (.operation ht hleft hys) (by omega) hmids hy
        exact ⟨t :: ys ++ zs, by simp, by simpa using hzs, hrest⟩
termination_by tokens.length

end

/-- **Expressions that are read are derived.** -/
theorem sound (n : Nat) : Sound n := by
  induction n with
  | zero => exact fun _ hlen => absurd hlen (Nat.not_lt_zero _)
  | succ n ih =>
    intro k tokens rest e hk hlen h
    rw [readBinary] at h
    obtain ⟨lhs, mid, hmid, hx, h⟩ := exists_outcome_of_bind h
    obtain ⟨e, rest, _, hy, h⟩ := exists_outcome_of_bind h
    cases h
    obtain ⟨xs, rfl, hxs, hapart⟩ := exists_operand ih tokens (Nat.le_of_lt_succ hlen) hx
    have hloose : Loose 9 mid := ⟨hapart, fun t _ op _ => Nat.le_succ_of_le op.precedence_le⟩
    obtain ⟨ys, rfl, hys, hrest⟩ :=
      exists_operations ih mid (by omega) (.operand hxs) (by omega) hloose hy
    exact ⟨xs ++ ys, by simp, hys, hrest⟩

/-! ## Statements -/

/-- Behind an expression, what is read is a statement that starts with it. -/
theorem exists_assign {e : Expr} {s : Stmt} {xs tokens rest : List Token} (he : Level 1 e xs)
    (hloose : Loose 0 tokens) (h : outcome (readAssign e tokens) = .ok (s, rest)) :
    ∃ ys, tokens = ys ++ rest ∧ Statement s (xs ++ ys) ∧ Stops rest := by
  unfold readAssign at h
  split at h
  · next line more =>
    obtain ⟨value, rest, _, hx, h⟩ := exists_outcome_of_bind h
    cases h
    obtain ⟨ys, rfl, hys, hrest⟩ := sound (more.length + 1) (Nat.zero_le 8) (Nat.lt_succ_self _) hx
    exact ⟨⟨.assign, line⟩ :: ys, rfl, .assign he hys, stops_iff.mpr hrest⟩
  · cases h
    exact ⟨[], rfl, by simpa using .expr he, stops_iff.mpr hloose⟩

/-- What is read as a body off fewer than `n` tokens is derived. -/
def SoundBody (n : Nat) : Prop :=
  ∀ {tokens rest : List Token} {ss : List Stmt}, tokens.length < n →
    outcome (readBody tokens) = .ok (ss, rest) →
    ∃ xs line, tokens = xs ++ ⟨.kwEnd, line⟩ :: rest ∧ Statements ss xs

theorem exists_statement {n : Nat} (hn : SoundBody n) {tokens : List Token}
    (hlen : tokens.length ≤ n) {s : Stmt} {rest : List Token}
    (h : outcome (readStmt tokens) = .ok (s, rest)) :
    ∃ xs, tokens = xs ++ rest ∧ Statement s xs ∧ (s.lead?.isSome = true → Stops rest) := by
  unfold readStmt at h
  split at h
  · cases h
  · next line more =>
    obtain ⟨condition, mid, hmid, hx, h⟩ := exists_outcome_of_bind h
    obtain ⟨_, behind, hbehind, hy, h⟩ := exists_outcome_of_bind h
    obtain ⟨body, rest, _, hz, h⟩ := exists_outcome_of_bind h
    cases h
    obtain ⟨line', rfl⟩ := eq_cons_of_readLexeme hy
    obtain ⟨xs, rfl, hxs, -⟩ := sound n (Nat.zero_le 8) hlen hx
    obtain ⟨ys, line'', rfl, hys⟩ := hn (by simp at hlen; omega) hz
    exact ⟨⟨.kwIf, line⟩ :: xs ++ ⟨.kwThen, line'⟩ :: ys ++ [⟨.kwEnd, line''⟩], by simp,
      .ifThen hxs hys, by simp [Stmt.lead?]⟩
  · next line more =>
    obtain ⟨name, rest, _, hx, h⟩ := exists_outcome_of_bind h
    cases h
    obtain ⟨line', rfl⟩ := eq_cons_of_readName hx
    exact ⟨[⟨.kwGoto, line⟩, ⟨.ident name, line'⟩], rfl, .goto name,
      by simp [Stmt.lead?]⟩
  · next line more =>
    obtain ⟨name, mid, _, hx, h⟩ := exists_outcome_of_bind h
    obtain ⟨_, rest, _, hy, h⟩ := exists_outcome_of_bind h
    cases h
    obtain ⟨line', rfl⟩ := eq_cons_of_readName hx
    obtain ⟨line'', rfl⟩ := eq_cons_of_readLexeme hy
    exact ⟨[⟨.labelMark, line⟩, ⟨.ident name, line'⟩, ⟨.labelMark, line''⟩], rfl, .label name,
      by simp [Stmt.lead?]⟩
  · next line more =>
    cases h
    exact ⟨[⟨.kwReturn, line⟩], rfl, .ret, by simp [Stmt.lead?]⟩
  · obtain ⟨e, mid, hmid, hx, h⟩ := exists_outcome_of_bind h
    obtain ⟨s, rest, _, hy, h⟩ := exists_outcome_of_bind h
    cases h
    obtain ⟨xs, hxs, he, hloose⟩ := sound (n + 1) (Nat.zero_le 8) (Nat.lt_succ_of_le hlen) hx
    obtain ⟨ys, rfl, hs, hstops⟩ := exists_assign he hloose hy
    exact ⟨xs ++ ys, by simpa using hxs, hs, fun _ => hstops⟩

theorem Stops.of_append {xs ys : List Token} (h : Stops (xs ++ ys)) : Stops xs := by
  cases xs with
  | nil => exact nofun
  | cons t xs => exact h

/-- **Bodies that are read are derived.** -/
theorem soundBody (n : Nat) : SoundBody n := by
  induction n with
  | zero => exact fun hlen => absurd hlen (Nat.not_lt_zero _)
  | succ n ih =>
    intro tokens rest ss hlen h
    unfold readBody at h
    split at h
    · cases h
    · next line more =>
      cases h
      exact ⟨[], line, rfl, .nil⟩
    · obtain ⟨s, mid, hmid, hx, h⟩ := exists_outcome_of_bind h
      obtain ⟨body, rest, _, hy, h⟩ := exists_outcome_of_bind h
      cases h
      obtain ⟨xs, rfl, hs, hstops⟩ := exists_statement ih (Nat.le_of_lt_succ hlen) hx
      obtain ⟨ys, line, rfl, hys⟩ := ih (by omega) hy
      exact ⟨xs ++ ys, line, by simp, .cons hs hys fun hlead => (hstops hlead).of_append⟩

/-- **Scripts that are read are derived.** -/
theorem statements_of_parse {tokens : List Token} {ss : List Stmt} (h : parse tokens = .ok ss) :
    Statements ss tokens := by
  induction ss generalizing tokens with
  | nil =>
    by_cases hne : tokens = []
    · subst hne
      exact .nil
    · obtain ⟨s, rest, body, -, -, hss⟩ := (parse_eq_ok hne).mp h
      cases hss
  | cons s ss ih =>
    have hne : tokens ≠ [] := by
      rintro rfl
      rw [parse_nil] at h
      cases h
    obtain ⟨s', rest, body, hs, hmore, hss⟩ := (parse_eq_ok hne).mp h
    cases hss
    obtain ⟨xs, rfl, hxs, hstops⟩ := exists_statement (soundBody _) (Nat.le_refl _) hs
    exact .cons hxs (ih hmore) hstops

/-- **Reading accepts exactly the grammar.**  Tokens are read as a script if and only if they are a
derivation of it in which no expression or assignment is directly followed by `.`, `[`, `(` or a
binary operator. -/
theorem parse_eq_ok_iff_statements (tokens : List Token) (ss : List Stmt) :
    parse tokens = .ok ss ↔ Statements ss tokens :=
  ⟨statements_of_parse, Statements.parse⟩

end MapScript.Grammar
