import MapScript.Proofs.Parsed

/-!
# The grammar of scripts

The grammar level by level, as relations between trees and tokens (lines of tokens do not matter):

    script   = stmt*
    stmt     = if E then stmt* end | goto name | :: name :: | return | E | E = E
    E        = level 1
    level k  = level (k + 1) | level k, operator of precedence k, level (k + 1)     (k ≤ 8)
    level 9  = (- | ! | not) level 9 | chain
    chain    = primary | chain . name | chain [ E ] | chain ( E, ... )
    primary  = number | name | ( E )

Statements have no separator, so a text may be cut into statements in more than one way.  Reading
takes the cut in which no expression could go on (`Stops`), and accepts exactly those texts that
have one:

    parse tokens = .ok ss ↔ Statements ss tokens      (parse_eq_ok_iff_statements)
-/

namespace MapScript

/-- Whether an expression can start with the lexeme. -/
def Lexeme.startsExpr : Lexeme → Bool
  | .number _ | .ident _ | .minus | .bang | .kwNot | .parenOpen => true
  | _ => false

namespace Grammar

open Script

/-! ## Derivations -/

mutual

/-- A number, a name, or an expression between parentheses. -/
inductive Primary : Expr → List Token → Prop
  | number {line : Nat} (lit : Literal) : Primary (.literal lit) [⟨.number lit, line⟩]
  | ident {line : Nat} (name : String) : Primary (.ident name) [⟨.ident name, line⟩]
  | paren {line line' : Nat} {e : Expr} {xs : List Token} :
    Level 1 e xs → Primary e (⟨.parenOpen, line⟩ :: xs ++ [⟨.parenClose, line'⟩])

/-- A primary expression and any properties, indices and arguments behind it. -/
inductive Chain : Expr → List Token → Prop
  | primary {e : Expr} {xs : List Token} : Primary e xs → Chain e xs
  | member {line line' : Nat} {e : Expr} {xs : List Token} (name : String) :
    Chain e xs → Chain (.member e name) (xs ++ [⟨.dot, line⟩, ⟨.ident name, line'⟩])
  | index {line line' : Nat} {e i : Expr} {xs ys : List Token} : Chain e xs → Level 1 i ys →
    Chain (.index e i) (xs ++ ⟨.bracketOpen, line⟩ :: ys ++ [⟨.bracketClose, line'⟩])
  | call {line line' : Nat} {e : Expr} {args : List Expr} {xs ys : List Token} :
    Chain e xs → Arguments args ys →
    Chain (.call e args) (xs ++ ⟨.parenOpen, line⟩ :: ys ++ [⟨.parenClose, line'⟩])

/-- No arguments, or some. -/
inductive Arguments : List Expr → List Token → Prop
  | none : Arguments [] []
  | some {args : List Expr} {xs : List Token} : MoreArguments args xs → Arguments args xs

/-- Arguments with commas between them, at least one. -/
inductive MoreArguments : List Expr → List Token → Prop
  | one {e : Expr} {xs : List Token} : Level 1 e xs → MoreArguments [e] xs
  | cons {line : Nat} {e : Expr} {args : List Expr} {xs ys : List Token} : Level 1 e xs →
    MoreArguments args ys → MoreArguments (e :: args) (xs ++ ⟨.comma, line⟩ :: ys)

/-- A chain and any signs in front of it. -/
inductive Operand : Expr → List Token → Prop
  | chain {e : Expr} {xs : List Token} : Chain e xs → Operand e xs
  | sign {e : Expr} {xs : List Token} {t : Token} {op : UnaryOp} :
    t.lexeme.unaryOp? = some op → Operand e xs → Operand (.unary op e) (t :: xs)

/-- Operands joined by operators of at least the given precedence, to the left. -/
inductive Level : Nat → Expr → List Token → Prop
  | operand {e : Expr} {xs : List Token} : Operand e xs → Level 9 e xs
  | tighter {k : Nat} {e : Expr} {xs : List Token} : Level (k + 1) e xs → Level k e xs
  | operation {lhs rhs : Expr} {xs ys : List Token} {t : Token} {op : BinaryOp} :
    t.lexeme.binaryOp? = some op → Level op.precedence lhs xs → Level (op.precedence + 1) rhs ys →
    Level op.precedence (.binary op lhs rhs) (xs ++ t :: ys)

end

/-- The tokens do not go on with an expression before them: they do not start with `.`, `[`, `(` or
a binary operator. -/
def Stops (tokens : List Token) : Prop :=
  ∀ t ∈ tokens.head?, t.lexeme.isPostfix = false ∧ t.lexeme.binaryOp? = none

mutual

inductive Statement : Stmt → List Token → Prop
  | ifThen {line line' line'' : Nat} {condition : Expr} {body : List Stmt} {xs ys : List Token} :
    Level 1 condition xs → Statements body ys →
    Statement (.ifThen condition body)
      (⟨.kwIf, line⟩ :: xs ++ ⟨.kwThen, line'⟩ :: ys ++ [⟨.kwEnd, line''⟩])
  | goto {line line' : Nat} (name : String) :
    Statement (.goto name) [⟨.kwGoto, line⟩, ⟨.ident name, line'⟩]
  | label {line line' line'' : Nat} (name : String) :
    Statement (.label name) [⟨.labelMark, line⟩, ⟨.ident name, line'⟩, ⟨.labelMark, line''⟩]
  | ret {line : Nat} : Statement .ret [⟨.kwReturn, line⟩]
  | expr {e : Expr} {xs : List Token} : Level 1 e xs → Statement (.expr e) xs
  | assign {line : Nat} {target value : Expr} {xs ys : List Token} : Level 1 target xs →
    Level 1 value ys → Statement (.assign target value) (xs ++ ⟨.assign, line⟩ :: ys)

/-- Statements one behind the other.  What directly follows an expression or an assignment does not
go on with it; the last statement of a body is followed by `end`. -/
inductive Statements : List Stmt → List Token → Prop
  | nil : Statements [] []
  | cons {s : Stmt} {ss : List Stmt} {xs ys : List Token} : Statement s xs → Statements ss ys →
    (s.lead?.isSome = true → Stops ys) → Statements (s :: ss) (xs ++ ys)

end

theorem Level.mono {k m : Nat} {e : Expr} {xs : List Token} (h : Level m e xs) (hkm : k ≤ m) :
    Level k e xs := by
  induction hkm with
  | refl => exact h
  | step _ ih => exact ih h.tighter

/-- No operator binds as loosely as level 0. -/
theorem stops_iff {tokens : List Token} : Stops tokens ↔ Loose 0 tokens := by
  constructor
  · intro h
    refine ⟨fun t ht => (h t ht).1, fun t ht op hop => ?_⟩
    rw [(h t ht).2] at hop
    cases hop
  · intro h t ht
    refine ⟨h.apart t ht, ?_⟩
    cases hop : t.lexeme.binaryOp? with
    | none => rfl
    | some op =>
      have := op.precedence_pos
      have := h.loose t ht op hop
      omega

/-! ## What is derived is read -/

/-- The tokens are read as `e`, and then reading goes on behind them. -/
def Reads (k : Nat) (e : Expr) (xs : List Token) : Prop :=
  ∀ least rest, least ≤ k → Loose k rest →
    outcome (readBinary least (xs ++ rest)) = outcome (readOperations least e rest)

/-- All of an expression is read where nothing goes on with it. -/
theorem Reads.whole {e : Expr} {xs rest : List Token} (h : Reads 1 e xs) (hr : Loose 0 rest) :
    outcome (readBinary 1 (xs ++ rest)) = .ok (e, rest) := by
  rw [h 1 rest (Nat.le_refl 1) (hr.mono (Nat.zero_le 1))]
  exact hr.outcome_readOperations (Nat.lt_succ_self 0) e

/-- The tokens start as those of an expression do. -/
def Starts (xs : List Token) : Prop := ∃ t more, xs = t :: more ∧ t.lexeme.startsExpr = true

theorem Starts.append {xs : List Token} (h : Starts xs) (ys : List Token) : Starts (xs ++ ys) := by
  obtain ⟨t, more, rfl, ht⟩ := h
  exact ⟨t, more ++ ys, rfl, ht⟩

theorem Starts.head_ne {xs : List Token} (h : Starts xs) {l : Lexeme}
    (hl : l.startsExpr = false) : ∀ t ∈ xs.head?, t.lexeme ≠ l := by
  obtain ⟨t, more, rfl, ht⟩ := h
  rintro t' ⟨⟩ rfl
  rw [ht] at hl
  cases hl

mutual

theorem Primary.starts {e : Expr} {xs : List Token} : Primary e xs → Starts xs
  | .number _ => ⟨_, _, rfl, rfl⟩
  | .ident _ => ⟨_, _, rfl, rfl⟩
  | .paren _ => ⟨_, _, rfl, rfl⟩

theorem Chain.starts {e : Expr} {xs : List Token} : Chain e xs → Starts xs
  | .primary h => h.starts
  | .member _ h => h.starts.append _
  | .index h _ => (h.starts.append _).append _
  | .call h _ => (h.starts.append _).append _

theorem Operand.starts {e : Expr} {xs : List Token} : Operand e xs → Starts xs
  | .chain h => h.starts
  | @Operand.sign _ _ ⟨l, _⟩ _ hs _ => ⟨_, _, rfl, by cases l <;> first | rfl | cases hs⟩

theorem Level.starts {k : Nat} {e : Expr} {xs : List Token} : Level k e xs → Starts xs
  | .operand h => h.starts
  | .tighter h => h.starts
  | .operation _ h _ => h.starts.append _

end

theorem MoreArguments.starts {args : List Expr} {xs : List Token} (h : MoreArguments args xs) :
    Starts xs := by
  cases h with
  | one h => exact h.starts
  | cons h _ => exact h.starts.append _

mutual

theorem Primary.reads {e : Expr} {xs : List Token} : Primary e xs → ∀ rest,
    outcome (readUnary (xs ++ rest)) = outcome (readPostfix e rest)
  | .number lit => fun _ => outcome_readUnary_of_none rfl (outcome_readPrimary_number lit)
  | .ident name => fun _ => outcome_readUnary_of_none rfl (outcome_readPrimary_ident name)
  | @Primary.paren line line' e xs h => fun rest => by
    have hinner : outcome (readBinary 1 (xs ++ ⟨.parenClose, line'⟩ :: rest)) =
        .ok (e, ⟨.parenClose, line'⟩ :: rest) := h.reads.whole (.of_lexeme rfl rfl)
    rw [List.append_assoc]
    exact outcome_readUnary_of_none rfl (outcome_readPrimary_paren hinner)

theorem Chain.reads {e : Expr} {xs : List Token} : Chain e xs → ∀ rest,
    outcome (readUnary (xs ++ rest)) = outcome (readPostfix e rest)
  | .primary h => h.reads
  | .member name h => fun rest => by
    rw [List.append_assoc, h.reads]
    exact outcome_readPostfix_member name
  | @Chain.index line line' e i xs ys h hi => fun rest => by
    have hinner : outcome (readBinary 1 (ys ++ ⟨.bracketClose, line'⟩ :: rest)) =
        .ok (i, ⟨.bracketClose, line'⟩ :: rest) := hi.reads.whole (.of_lexeme rfl rfl)
    rw [List.append_assoc, List.append_assoc, h.reads]
    exact outcome_readPostfix_index hinner
  | @Chain.call line line' e args xs ys h hargs => fun rest => by
    rw [List.append_assoc, List.append_assoc, h.reads]
    exact outcome_readPostfix_call (hargs.reads line' rest)

theorem Arguments.reads {args : List Expr} {xs : List Token} : Arguments args xs →
    ∀ line rest, outcome (readArguments (xs ++ ⟨.parenClose, line⟩ :: rest)) = .ok (args, rest)
  | .none => fun _ _ => outcome_readArguments_nil
  | .some h => fun line rest => by
    rw [outcome_readArguments_of_ne ((h.starts.append _).head_ne rfl)]
    exact h.reads line rest

theorem MoreArguments.reads {args : List Expr} {xs : List Token} : MoreArguments args xs →
    ∀ line rest, outcome (readMoreArguments (xs ++ ⟨.parenClose, line⟩ :: rest)) = .ok (args, rest)
  | .one h => fun _ _ =>
    outcome_readMoreArguments (h.reads.whole (.of_lexeme rfl rfl)) outcome_readArgumentsTail_close
  | .cons h hmore => fun line rest => by
    rw [List.append_assoc]
    exact outcome_readMoreArguments (h.reads.whole (.of_lexeme rfl rfl))
      (outcome_readArgumentsTail_comma (hmore.reads line rest))

theorem Operand.reads {e : Expr} {xs : List Token} : Operand e xs →
    ∀ rest : List Token, (∀ t ∈ rest.head?, t.lexeme.isPostfix = false) →
      outcome (readUnary (xs ++ rest)) = .ok (e, rest)
  | .chain h => fun rest hr => (h.reads rest).trans (outcome_readPostfix_of_not hr)
  | .sign hs h => fun rest hr => outcome_readUnary_of_some hs (h.reads rest hr)

theorem Level.reads {k : Nat} {e : Expr} {xs : List Token} : Level k e xs → Reads k e xs
  | .operand h => fun _ rest _ hr => outcome_readBinary (h.reads rest hr.apart)
  | .tighter h => fun least rest hle hr =>
    h.reads least rest (Nat.le_succ_of_le hle) (hr.mono (Nat.le_succ _))
  | @Level.operation lhs rhs xs ys t op ht hl hr' => fun least rest hle hr => by
    -- the right side binds tighter, so it ends where the operator's own level goes on
    have hright : outcome (readBinary (op.precedence + 1) (ys ++ rest)) = .ok (rhs, rest) := by
      rw [hr'.reads _ rest (Nat.le_refl _) (hr.mono (Nat.le_succ _))]
      exact hr.outcome_readOperations (Nat.lt_succ_self _) rhs
    rw [List.append_assoc, List.cons_append, hl.reads least _ hle (.of_binaryOp? ht)]
    exact outcome_readOperations_of_le ht hle hright

end

theorem outcome_readStmt_of_starts {e : Expr} {xs tokens rest : List Token} (hs : Starts xs)
    (h : outcome (readBinary 1 (xs ++ tokens)) = .ok (e, rest)) :
    outcome (readStmt (xs ++ tokens)) = outcome (readAssign e rest) := by
  obtain ⟨⟨l, line⟩, more, rfl, hl⟩ := hs
  refine outcome_readStmt_expr ?_ h
  cases l <;> first | rfl | cases hl

/-- A statement starts with a word of its own or with an expression. -/
theorem Statement.head {s : Stmt} {xs : List Token} (h : Statement s xs) :
    ∃ t more, xs = t :: more ∧ (t.lexeme.opensStmt = true ∨ t.lexeme.startsExpr = true) := by
  cases h with
  | expr h =>
    obtain ⟨t, more, rfl, ht⟩ := h.starts
    exact ⟨t, more, rfl, .inr ht⟩
  | assign h _ =>
    obtain ⟨t, more, rfl, ht⟩ := h.starts
    exact ⟨t, _, rfl, .inr ht⟩
  | _ => exact ⟨_, _, rfl, .inl rfl⟩

theorem Statement.head_ne {s : Stmt} {xs : List Token} (h : Statement s xs) (rest : List Token)
    {l : Lexeme} (hs : l.opensStmt = false) (he : l.startsExpr = false) :
    ∀ t ∈ (xs ++ rest).head?, t.lexeme ≠ l := by
  obtain ⟨t, more, rfl, ht⟩ := h.head
  rintro t' ⟨⟩ rfl
  rw [hs, he] at ht
  exact ht.elim nofun nofun

/-- What follows a statement, in a body or up to the end, does not go on with it. -/
theorem Statements.ended {ss : List Stmt} {xs rest : List Token} (h : Statements ss xs)
    (hs : Stops xs) (hr : Ended rest) : Ended (xs ++ rest) := by
  cases h with
  | nil => exact hr
  | @cons s ss xs ys h hmore hstops =>
    rw [List.append_assoc]
    refine ⟨stops_iff.mp ?_, h.head_ne _ rfl rfl⟩
    obtain ⟨t, more, rfl, -⟩ := h.head
    exact hs

mutual

theorem Statement.reads {s : Stmt} {xs : List Token} : Statement s xs → ∀ rest,
    (s.lead?.isSome = true → Ended rest) → outcome (readStmt (xs ++ rest)) = .ok (s, rest)
  | @Statement.ifThen line line' line'' condition body xs ys hc hb => fun rest _ => by
    have htokens : ⟨.kwIf, line⟩ :: xs ++ ⟨.kwThen, line'⟩ :: ys ++ [⟨.kwEnd, line''⟩] ++ rest =
        ⟨.kwIf, line⟩ :: (xs ++ ⟨.kwThen, line'⟩ :: (ys ++ ⟨.kwEnd, line''⟩ :: rest)) := by
      simp
    rw [htokens]
    exact (outcome_readStmt_if_eq_ok (hc.reads.whole (.of_lexeme rfl rfl))).mpr
      ⟨body, hb.reads line'' rest, rfl⟩
  | .goto name => fun _ _ => outcome_readStmt_goto name
  | .label name => fun _ _ => outcome_readStmt_label name
  | .ret => fun _ _ => outcome_readStmt_ret
  | .expr h => fun rest hr => by
    rw [outcome_readStmt_of_starts h.starts (h.reads.whole (hr rfl).loose)]
    exact outcome_readAssign_of_ne (hr rfl).ne_assign
  | .assign ht hv => fun rest hr => by
    rw [List.append_assoc, List.cons_append,
      outcome_readStmt_of_starts ht.starts (ht.reads.whole (.of_lexeme rfl rfl))]
    exact outcome_readAssign_eq_ok.mpr ⟨_, hv.reads.whole (hr rfl).loose, rfl⟩

theorem Statements.reads {ss : List Stmt} {xs : List Token} : Statements ss xs → ∀ line rest,
    outcome (readBody (xs ++ ⟨.kwEnd, line⟩ :: rest)) = .ok (ss, rest)
  | .nil => fun _ _ => outcome_readBody_end
  | .cons h hmore hstops => fun line rest => by
    have hend : Ended (⟨.kwEnd, line⟩ :: rest) := .of_lexeme rfl rfl nofun
    rw [List.append_assoc]
    exact (outcome_readBody_eq_ok (h.head_ne _ rfl rfl)).mpr ⟨_, _, _,
      h.reads _ fun hlead => hmore.ended (hstops hlead) hend, hmore.reads line rest, rfl⟩

end

/-- **Scripts that are derived are read.** -/
theorem Statements.parse {ss : List Stmt} {xs : List Token} (h : Statements ss xs) :
    parse xs = .ok ss := by
  induction ss generalizing xs with
  | nil =>
    cases h
    exact parse_nil
  | cons s ss ih =>
    cases h with
    | @cons _ _ xs ys h hmore hstops =>
      obtain ⟨t, more, hxs, -⟩ := h.head
      have hread := h.reads ys fun hlead => by
        have hended := hmore.ended (hstops hlead) .nil
        rwa [List.append_nil] at hended
      exact (parse_eq_ok (by simp [hxs])).mpr ⟨s, ys, ss, hread, ih hmore, rfl⟩

end Grammar

end MapScript
