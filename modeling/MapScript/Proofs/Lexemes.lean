import MapScript.Proofs.Reading
import MapScript.Script.Render

/-!
# Scripts as lexemes

`Expr.lexemes` writes an expression as its text does, with parentheses in the same places, but
lexeme by lexeme and with no names for numbers.  Reading gives the expression back, whatever
follows it that does not belong to it:

    least ≤ e.precedence → Loose e.precedence rest →
      outcome (readBinary least (onLine line e.lexemes ++ rest)) =
        outcome (readOperations least e rest)                       (Readable.binary)
-/

namespace MapScript

/-! ## Lexemes -/

/-- The lexeme of an operator. -/
def BinaryOp.lexeme : BinaryOp → Lexeme
  | add => .plus
  | sub => .minus
  | mul => .star
  | div => .slash
  | lt => .less
  | gt => .greater
  | le => .lessEq
  | ge => .greaterEq
  | eq => .eqEq
  | ne => .notEq
  | bitAnd => .amp
  | bitOr => .pipe
  | shl => .shiftLeft
  | shr => .shiftRight
  | and => .kwAnd
  | or => .kwOr

@[simp] theorem BinaryOp.binaryOp?_lexeme (op : BinaryOp) : op.lexeme.binaryOp? = some op := by
  cases op <;> rfl

/-- An operator ends the operand before it. -/
theorem Lexeme.isPostfix_of_binaryOp? {l : Lexeme} {op : BinaryOp} (h : l.binaryOp? = some op) :
    l.isPostfix = false := by
  cases l <;> first | rfl | cases h

theorem BinaryOp.precedence_pos (op : BinaryOp) : 1 ≤ op.precedence := by
  cases op <;> decide

theorem BinaryOp.precedence_le (op : BinaryOp) : op.precedence ≤ 8 := by
  cases op <;> decide

/-- The lexeme of an operator. -/
def UnaryOp.lexeme : UnaryOp → Lexeme
  | neg => .minus
  | not => .bang

@[simp] theorem UnaryOp.unaryOp?_lexeme (op : UnaryOp) : op.lexeme.unaryOp? = some op := by
  cases op <;> rfl

/-- Lexemes between parentheses, if they are needed. -/
def Lexeme.parenthesized (needed : Bool) (ls : List Lexeme) : List Lexeme :=
  if needed then .parenOpen :: ls ++ [.parenClose] else ls

namespace Expr

/-- How tightly the parts of an expression are bound together. -/
def precedence : Expr → Nat
  | binary op _ _ => op.precedence
  | _ => 9

mutual

/-- The lexemes of an expression. -/
def lexemes : Expr → List Lexeme
  | literal l => [.number l]
  | ident name => [.ident name]
  | member object property =>
    Lexeme.parenthesized object.isOperation object.lexemes ++ [.dot, .ident property]
  | index base i =>
    Lexeme.parenthesized base.isOperation base.lexemes ++
      .bracketOpen :: i.lexemes ++ [.bracketClose]
  | call callee args =>
    Lexeme.parenthesized callee.isOperation callee.lexemes ++ .parenOpen :: argumentLexemes args
  | binary op lhs rhs =>
    Lexeme.parenthesized (lhs.bindsLooser op) lhs.lexemes ++
      op.lexeme :: Lexeme.parenthesized (rhs.bindsNoTighter op) rhs.lexemes
  | unary op operand =>
    op.lexeme :: Lexeme.parenthesized operand.isOperation operand.lexemes

/-- The lexemes of arguments up to the closing parenthesis. -/
def argumentLexemes : List Expr → List Lexeme
  | [] => [.parenClose]
  | arg :: rest => arg.lexemes ++ moreLexemes rest

/-- The lexemes behind an argument, up to the closing parenthesis. -/
def moreLexemes : List Expr → List Lexeme
  | [] => [.parenClose]
  | arg :: rest => .comma :: arg.lexemes ++ moreLexemes rest

end

theorem bindsLooser_eq (op : BinaryOp) (e : Expr) :
    e.bindsLooser op = decide (e.precedence < op.precedence) := by
  have := op.precedence_le
  cases e with
  | binary top lhs rhs => rfl
  | _ => exact (decide_eq_false (by simp only [precedence]; omega)).symm

theorem bindsNoTighter_eq (op : BinaryOp) (e : Expr) :
    e.bindsNoTighter op = decide (e.precedence ≤ op.precedence) := by
  have := op.precedence_le
  cases e with
  | binary top lhs rhs => rfl
  | _ => exact (decide_eq_false (by simp only [precedence]; omega)).symm

end Expr

/-! ## Reading expressions -/

/-- Lexemes as tokens of one line. -/
def Token.onLine (line : Nat) (ls : List Lexeme) : List Token := ls.map (⟨·, line⟩)

namespace Token

@[simp] theorem onLine_nil (line : Nat) : onLine line [] = [] := rfl

@[simp] theorem onLine_cons (line : Nat) (l : Lexeme) (ls : List Lexeme) :
    onLine line (l :: ls) = ⟨l, line⟩ :: onLine line ls := rfl

@[simp] theorem onLine_append (line : Nat) (xs ys : List Lexeme) :
    onLine line (xs ++ ys) = onLine line xs ++ onLine line ys := List.map_append

end Token

open Script Token

/-- What follows does not go on with a property, an index or arguments, nor with an operator that
binds tighter than `most`. -/
structure Loose (most : Nat) (tokens : List Token) : Prop where
  apart : ∀ t ∈ tokens.head?, t.lexeme.isPostfix = false
  loose : ∀ t ∈ tokens.head?, ∀ op, t.lexeme.binaryOp? = some op → op.precedence ≤ most

theorem Loose.mono {m n : Nat} {tokens : List Token} (h : Loose m tokens) (hmn : m ≤ n) :
    Loose n tokens :=
  ⟨h.apart, fun t ht op ho => Nat.le_trans (h.loose t ht op ho) hmn⟩

theorem Loose.of_lexeme {l : Lexeme} {line : Nat} {tokens : List Token}
    (hp : l.isPostfix = false) (hb : l.binaryOp? = none) : Loose 0 (⟨l, line⟩ :: tokens) := by
  refine ⟨?_, ?_⟩
  · rintro t ⟨⟩
    exact hp
  · rintro t ⟨⟩ op ho
    rw [hb] at ho
    cases ho

theorem Loose.of_binaryOp? {t : Token} {op : BinaryOp} {tokens : List Token}
    (h : t.lexeme.binaryOp? = some op) : Loose op.precedence (t :: tokens) := by
  refine ⟨?_, ?_⟩
  · rintro t' ⟨⟩
    exact Lexeme.isPostfix_of_binaryOp? h
  · rintro t' ⟨⟩ op' ho
    rw [h] at ho
    cases ho
    exact Nat.le_refl _

theorem Loose.of_operator (op : BinaryOp) {line : Nat} {tokens : List Token} :
    Loose op.precedence (⟨op.lexeme, line⟩ :: tokens) :=
  .of_binaryOp? op.binaryOp?_lexeme

/-- Operators that bind too loosely are left. -/
theorem Loose.outcome_readOperations {most least : Nat} {tokens : List Token}
    (h : Loose most tokens) (hlt : most < least) (e : Expr) :
    outcome (readOperations least e tokens) = .ok (e, tokens) := by
  cases tokens with
  | nil => exact outcome_readOperations_nil
  | cons t rest =>
    cases ho : t.lexeme.binaryOp? with
    | none => exact outcome_readOperations_of_none ho
    | some op =>
      have := h.loose t rfl op ho
      exact outcome_readOperations_of_lt ho (by omega)

/-- The lexemes start as those of an expression do. -/
def Lexeme.Opens (ls : List Lexeme) : Prop := ∃ l rest, ls = l :: rest ∧ l.opensExpr = true

theorem Lexeme.Opens.append {xs : List Lexeme} (h : Opens xs) (ys : List Lexeme) :
    Opens (xs ++ ys) := by
  obtain ⟨l, rest, rfl, hl⟩ := h
  exact ⟨l, rest ++ ys, rfl, hl⟩

theorem Lexeme.Opens.parenthesized {xs : List Lexeme} (h : Opens xs) (needed : Bool) :
    Opens (parenthesized needed xs) := by
  cases needed with
  | false => exact h
  | true => exact ⟨.parenOpen, _, rfl, rfl⟩

theorem Lexeme.Opens.head_ne {xs : List Lexeme} (h : Opens xs) {line : Nat} {rest : List Token}
    {l : Lexeme} (hl : l.opensExpr = false) :
    ∀ t ∈ (onLine line xs ++ rest).head?, t.lexeme ≠ l := by
  obtain ⟨l', xs', rfl, hl'⟩ := h
  rintro t ⟨⟩ rfl
  exact absurd hl' (by simp [hl])

namespace Expr

theorem opens_lexemes : (e : Expr) → Lexeme.Opens e.lexemes
  | literal _ => ⟨_, _, rfl, rfl⟩
  | ident _ => ⟨_, _, rfl, rfl⟩
  | member object _ => ((opens_lexemes object).parenthesized _).append _
  | index base _ => by
    rw [lexemes, List.append_assoc]
    exact ((opens_lexemes base).parenthesized _).append _
  | call callee _ => ((opens_lexemes callee).parenthesized _).append _
  | binary _ lhs _ => ((opens_lexemes lhs).parenthesized _).append _
  | unary op _ => ⟨op.lexeme, _, rfl, by cases op <;> rfl⟩

theorem precedence_pos (e : Expr) : 1 ≤ e.precedence := by
  cases e with
  | binary op lhs rhs => exact op.precedence_pos
  | _ => exact (by decide : 1 ≤ 9)

/-- The lexemes of the expression are read as the expression, and then reading goes on. -/
structure Readable (line : Nat) (e : Expr) : Prop where
  binary : ∀ least rest, least ≤ e.precedence → Loose e.precedence rest →
    outcome (readBinary least (onLine line e.lexemes ++ rest)) =
      outcome (readOperations least e rest)
  unary : e.isOperation = false → ∀ rest,
    outcome (readUnary (onLine line e.lexemes ++ rest)) = outcome (readPostfix e rest)

namespace Readable

variable {line : Nat} {e : Expr}

/-- All of the expression is read where nothing can follow it. -/
theorem whole (h : e.Readable line) {rest : List Token} (hr : Loose 0 rest) :
    outcome (readBinary 1 (onLine line e.lexemes ++ rest)) = .ok (e, rest) := by
  rw [h.binary 1 rest e.precedence_pos (hr.mono (Nat.zero_le _))]
  exact hr.outcome_readOperations (Nat.lt_succ_self 0) e

/-- Between parentheses, an expression is an operand. -/
theorem operand (h : e.Readable line) (needed : Bool)
    (hn : needed = false → e.isOperation = false) (rest : List Token) :
    outcome (readUnary (onLine line (Lexeme.parenthesized needed e.lexemes) ++ rest)) =
      outcome (readPostfix e rest) := by
  cases needed with
  | false => exact h.unary (hn rfl) rest
  | true =>
    have hinner : outcome (readBinary 1
        (onLine line e.lexemes ++ ⟨.parenClose, line⟩ :: rest)) =
        .ok (e, ⟨.parenClose, line⟩ :: rest) := h.whole (.of_lexeme rfl rfl)
    have htokens : onLine line (Lexeme.parenthesized true e.lexemes) ++ rest =
        ⟨.parenOpen, line⟩ :: (onLine line e.lexemes ++ ⟨.parenClose, line⟩ :: rest) := by
      simp [Lexeme.parenthesized]
    rw [htokens]
    exact outcome_readUnary_of_none rfl (outcome_readPrimary_paren hinner)

/-- An operand of an operator, between parentheses if it binds too loosely. -/
theorem side (h : e.Readable line) (needed : Bool) (least : Nat) (rest : List Token)
    (hn : needed = false → least ≤ e.precedence ∧ Loose e.precedence rest)
    (ha : ∀ t ∈ rest.head?, t.lexeme.isPostfix = false) :
    outcome (readBinary least (onLine line (Lexeme.parenthesized needed e.lexemes) ++ rest)) =
      outcome (readOperations least e rest) := by
  cases needed with
  | false => exact h.binary least rest (hn rfl).1 (hn rfl).2
  | true =>
    refine outcome_readBinary ((h.operand true ?_ rest).trans (outcome_readPostfix_of_not ha))
    exact nofun

/-- What is read as an operand is no operation. -/
theorem of_operand (h : ∀ rest,
    outcome (readUnary (onLine line e.lexemes ++ rest)) = outcome (readPostfix e rest)) :
    e.Readable line where
  binary _ rest _ hr := outcome_readBinary ((h rest).trans (outcome_readPostfix_of_not hr.apart))
  unary _ := h

theorem of_signed (op : UnaryOp) (h : e.Readable line) : (Expr.unary op e).Readable line where
  binary _ rest _ hr := by
    have he := h.operand e.isOperation id rest
    exact outcome_readBinary (outcome_readUnary_of_some op.unaryOp?_lexeme
      (he.trans (outcome_readPostfix_of_not hr.apart)))
  unary := nofun

/-- Both operands bind as tightly as it takes: the left one may have an operator of the same
precedence, the right one may not. -/
theorem of_sides (op : BinaryOp) {lhs rhs : Expr} (hl : lhs.Readable line)
    (hr : rhs.Readable line) : (Expr.binary op lhs rhs).Readable line where
  binary least rest hle hrest := by
    have hright : outcome (readBinary (op.precedence + 1)
        (onLine line (Lexeme.parenthesized (rhs.bindsNoTighter op) rhs.lexemes) ++ rest)) =
        .ok (rhs, rest) := by
      rw [hr.side _ _ _ ?_ hrest.apart]
      · exact hrest.outcome_readOperations (Nat.lt_succ_self _) rhs
      · intro hn
        rw [bindsNoTighter_eq, decide_eq_false_iff_not, Nat.not_le] at hn
        exact ⟨hn, hrest.mono (Nat.le_of_lt hn)⟩
    have htokens : onLine line (Expr.binary op lhs rhs).lexemes ++ rest =
        onLine line (Lexeme.parenthesized (lhs.bindsLooser op) lhs.lexemes) ++
          ⟨op.lexeme, line⟩ :: (onLine line
            (Lexeme.parenthesized (rhs.bindsNoTighter op) rhs.lexemes) ++ rest) := by
      simp [lexemes]
    rw [htokens, hl.side _ _ _ ?_ (Loose.of_operator op).apart]
    · exact outcome_readOperations_of_le op.binaryOp?_lexeme hle hright
    · intro hn
      rw [bindsLooser_eq, decide_eq_false_iff_not, Nat.not_lt] at hn
      exact ⟨Nat.le_trans hle hn, (Loose.of_operator op).mono hn⟩
  unary := nofun

end Readable

mutual

/-- **Expressions are read back.** -/
theorem readable (line : Nat) : (e : Expr) → e.Readable line
  | literal l => .of_operand fun rest =>
    outcome_readUnary_of_none rfl (outcome_readPrimary_number l)
  | ident name => .of_operand fun rest =>
    outcome_readUnary_of_none rfl (outcome_readPrimary_ident name)
  | member object property => .of_operand fun rest => by
    have ho := (readable line object).operand object.isOperation id
    rw [lexemes, onLine_append, List.append_assoc, ho]
    exact outcome_readPostfix_member property
  | index base i => .of_operand fun rest => by
    have hb := (readable line base).operand base.isOperation id
    have hi : outcome (readBinary 1 (onLine line i.lexemes ++ ⟨.bracketClose, line⟩ :: rest)) =
        .ok (i, ⟨.bracketClose, line⟩ :: rest) := (readable line i).whole (.of_lexeme rfl rfl)
    have htokens : onLine line (index base i).lexemes ++ rest =
        onLine line (Lexeme.parenthesized base.isOperation base.lexemes) ++
          ⟨.bracketOpen, line⟩ :: (onLine line i.lexemes ++ ⟨.bracketClose, line⟩ :: rest) := by
      simp [lexemes]
    rw [htokens, hb]
    exact outcome_readPostfix_index hi
  | call callee args => .of_operand fun rest => by
    have hc := (readable line callee).operand callee.isOperation id
    rw [lexemes, onLine_append, List.append_assoc, hc]
    exact outcome_readPostfix_call (readArguments_lexemes line args rest)
  | binary op lhs rhs => .of_sides op (readable line lhs) (readable line rhs)
  | unary op operand => .of_signed op (readable line operand)

theorem readArguments_lexemes (line : Nat) : (args : List Expr) → (rest : List Token) →
    outcome (readArguments (onLine line (argumentLexemes args) ++ rest)) = .ok (args, rest)
  | [], rest => outcome_readArguments_nil
  | arg :: args, rest => by
    have hopens : Lexeme.Opens (argumentLexemes (arg :: args)) := (opens_lexemes arg).append _
    rw [outcome_readArguments_of_ne (hopens.head_ne rfl), argumentLexemes, onLine_append,
      List.append_assoc]
    have hmore := readMore_lexemes line args rest
    exact outcome_readMoreArguments ((readable line arg).whole hmore.1) hmore.2

/-- What stands behind an argument ends it. -/
theorem readMore_lexemes (line : Nat) : (args : List Expr) → (rest : List Token) →
    Loose 0 (onLine line (moreLexemes args) ++ rest) ∧
      outcome (readArgumentsTail (onLine line (moreLexemes args) ++ rest)) = .ok (args, rest)
  | [], rest => ⟨.of_lexeme rfl rfl, outcome_readArgumentsTail_close⟩
  | arg :: args, rest => by
    refine ⟨.of_lexeme rfl rfl, outcome_readArgumentsTail_comma ?_⟩
    have hmore := readMore_lexemes line args rest
    have hread := outcome_readMoreArguments ((readable line arg).whole hmore.1) hmore.2
    rwa [← List.append_assoc, ← onLine_append] at hread

end

end Expr

end MapScript
