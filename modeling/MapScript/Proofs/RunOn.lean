import MapScript.Proofs.Lexemes

/-!
# Expressions that run on

An expression takes as many tokens as it can.  In front of a second expression that starts with `-`
or `(` it takes all of that as well: the sign becomes an operator between the two, the parenthesis
opens the arguments of a call, and the operators of the second expression go on from there
(`exists_readBinary_runOn`).  This does not depend on what the two expressions are, so the tokens
are described by what the readers see in them, operands joined by operators:

    operand = sign* primary            (Signed, Primary)
    E       = operand (op operand)*    (Joined, Operations)
-/

namespace MapScript

open Script Token

/-- The first expression is what the second one starts with. -/
inductive Expr.Leads (e : Expr) : Expr → Prop
  | refl : Leads e e
  | member {object : Expr} (property : String) : Leads e object → Leads e (.member object property)
  | index {base : Expr} (i : Expr) : Leads e base → Leads e (.index base i)
  | call {callee : Expr} (args : List Expr) : Leads e callee → Leads e (.call callee args)
  | binary {lhs : Expr} (op : BinaryOp) (rhs : Expr) : Leads e lhs → Leads e (.binary op lhs rhs)

theorem Expr.Leads.trans {x y z : Expr} (h : x.Leads y) (h' : y.Leads z) : x.Leads z := by
  induction h' with
  | refl => exact h
  | member property _ ih => exact .member property ih
  | index i _ ih => exact .index i ih
  | call args _ ih => exact .call args ih
  | binary op rhs _ ih => exact .binary op rhs ih

/-! ## Operands -/

/-- Behind an operand, the tokens are properties, indices and arguments that make `f e` of it. -/
structure Postfixes (f : Expr → Expr) (tokens : List Token) : Prop where
  leads : ∀ e : Expr, e.Leads (f e)
  reads : ∀ (e : Expr) (rest : List Token),
    outcome (readPostfix e (tokens ++ rest)) = outcome (readPostfix (f e) rest)

namespace Postfixes

theorem append {f g : Expr → Expr} {xs ys : List Token} (h : Postfixes f xs)
    (h' : Postfixes g ys) : Postfixes (fun e => g (f e)) (xs ++ ys) where
  leads e := (h.leads e).trans (h'.leads (f e))
  reads e rest := by rw [List.append_assoc, h.reads, h'.reads]

theorem of_member (line : Nat) (property : String) :
    Postfixes (.member · property) (onLine line [.dot, .ident property]) where
  leads _ := .member property .refl
  reads _ _ := outcome_readPostfix_member property

theorem of_index (line : Nat) (i : Expr) :
    Postfixes (.index · i) (onLine line (.bracketOpen :: i.lexemes ++ [.bracketClose])) where
  leads _ := .index i .refl
  reads e rest := by
    have hi : outcome (readBinary 1 (onLine line i.lexemes ++ ⟨.bracketClose, line⟩ :: rest)) =
        .ok (i, ⟨.bracketClose, line⟩ :: rest) := (i.readable line).whole (.of_lexeme rfl rfl)
    have htokens : onLine line (.bracketOpen :: i.lexemes ++ [.bracketClose]) ++ rest =
        ⟨.bracketOpen, line⟩ :: (onLine line i.lexemes ++ ⟨.bracketClose, line⟩ :: rest) := by
      simp
    rw [htokens]
    exact outcome_readPostfix_index hi

theorem of_call (line : Nat) (args : List Expr) :
    Postfixes (.call · args) (onLine line (.parenOpen :: Expr.argumentLexemes args)) where
  leads _ := .call args .refl
  reads _ rest := outcome_readPostfix_call (Expr.readArguments_lexemes line args rest)

end Postfixes

/-- The tokens are read as `e`, with nothing in front of it; if they start with a parenthesis, they
could be arguments as well. -/
structure Primary (e : Expr) (tokens : List Token) : Prop where
  start : ∃ t rest, tokens = t :: rest ∧ t.lexeme.unaryOp? = none ∧
    (t.lexeme = .parenOpen → ∃ f, Postfixes f tokens)
  reads : ∀ rest, outcome (readUnary (tokens ++ rest)) = outcome (readPostfix e rest)

theorem Primary.append {e : Expr} {f : Expr → Expr} {xs ys : List Token} (h : Primary e xs)
    (h' : Postfixes f ys) : Primary (f e) (xs ++ ys) where
  start := by
    obtain ⟨t, rest, rfl, hu, hp⟩ := h.start
    refine ⟨t, rest ++ ys, rfl, hu, fun ht => ?_⟩
    obtain ⟨g, hg⟩ := hp ht
    exact ⟨_, hg.append h'⟩
  reads rest := by rw [List.append_assoc, h.reads, h'.reads]

/-- Between parentheses, or if it is no operation, an expression is a primary one. -/
theorem Expr.primary (line : Nat) : (e : Expr) → (needed : Bool) →
    (needed = false → e.isOperation = false) →
    Primary e (onLine line (Lexeme.parenthesized needed e.lexemes))
  | e, true, hn =>
    ⟨⟨_, _, rfl, rfl, fun _ => ⟨_, .of_call line [e]⟩⟩, (e.readable line).operand true hn⟩
  | literal _, false, hn => ⟨⟨_, _, rfl, rfl, nofun⟩, (readable line _).operand false hn⟩
  | ident _, false, hn => ⟨⟨_, _, rfl, rfl, nofun⟩, (readable line _).operand false hn⟩
  | member object property, false, _ => by
    have h := (primary line object object.isOperation id).append (.of_member line property)
    rwa [← onLine_append] at h
  | index base i, false, _ => by
    have h := (primary line base base.isOperation id).append (.of_index line i)
    rwa [← onLine_append, ← List.append_assoc] at h
  | call callee args, false, _ => by
    have h := (primary line callee callee.isOperation id).append (.of_call line args)
    rwa [← onLine_append] at h
  | binary _ _ _, false, hn => nomatch hn rfl
  | unary _ _, false, hn => nomatch hn rfl

/-- The tokens are read as the operand `e`, a primary expression with signs in front of it. -/
inductive Signed : Expr → List Token → Prop
  | primary {e : Expr} {tokens : List Token} : Primary e tokens → Signed e tokens
  | sign {e : Expr} {tokens : List Token} {t : Token} {op : UnaryOp}
      (sign : t.lexeme.unaryOp? = some op) : Signed e tokens → Signed (.unary op e) (t :: tokens)

namespace Signed

variable {e : Expr} {xs ys : List Token}

theorem outcome_readUnary (h : Signed e xs) {rest : List Token}
    (hr : ∀ t ∈ rest.head?, t.lexeme.isPostfix = false) :
    outcome (readUnary (xs ++ rest)) = .ok (e, rest) := by
  induction h with
  | primary h => rw [h.reads, outcome_readPostfix_of_not hr]
  | sign hs _ ih => exact outcome_readUnary_of_some hs ih

/-- What follows an operand belongs to it, or to what its signs stand before. -/
theorem exists_append {f : Expr → Expr} (h : Signed e xs) (h' : Postfixes f ys) :
    ∃ e', Signed e' (xs ++ ys) ∧ (e.isOperation = false → e.Leads e') := by
  induction h with
  | @primary e xs h => exact ⟨f e, .primary (h.append h'), fun _ => h'.leads e⟩
  | sign hs _ ih =>
    obtain ⟨e', he', -⟩ := ih
    exact ⟨_, .sign hs he', nofun⟩

end Signed

/-! ## Operands joined by operators -/

/-- Operators, each with the operand behind it. -/
inductive Operations : List Token → Prop
  | nil : Operations []
  | cons {e : Expr} {xs ys : List Token} {t : Token} {op : BinaryOp}
      (operator : t.lexeme.binaryOp? = some op) :
      Signed e xs → Operations ys → Operations (t :: (xs ++ ys))

namespace Operations

variable {xs ys : List Token}

theorem append (h : Operations xs) (h' : Operations ys) : Operations (xs ++ ys) := by
  induction h with
  | nil => exact h'
  | cons operator hx _ ih =>
    rw [List.cons_append, List.append_assoc]
    exact .cons operator hx ih

/-- What follows operations belongs to the last operand. -/
theorem append_postfixes {f : Expr → Expr} (h : Operations xs) (hne : xs ≠ [])
    (h' : Postfixes f ys) : Operations (xs ++ ys) := by
  induction h with
  | nil => exact absurd rfl hne
  | @cons e xs zs t op operator hx hz ih =>
    rw [List.cons_append, List.append_assoc]
    by_cases hzs : zs = []
    · subst hzs
      obtain ⟨e', he', -⟩ := hx.exists_append h'
      have hone := cons operator he' nil
      rwa [List.append_nil] at hone
    · exact .cons operator hx (ih hzs)

/-- An operator ends the operand before it. -/
theorem apart (h : Operations xs) {rest : List Token} (hr : Loose 0 rest) :
    ∀ t ∈ (xs ++ rest).head?, t.lexeme.isPostfix = false := by
  cases h with
  | nil => exact hr.apart
  | @cons e xs ys t op operator =>
    rintro t' ⟨⟩
    exact Lexeme.isPostfix_of_binaryOp? operator

/-- Operations are taken up to the first operator that binds too loosely; the loosest precedence
takes all of them. -/
theorem exists_readOperations (h : Operations xs) {least : Nat} (hl : 1 ≤ least) (lhs : Expr)
    {rest : List Token} (hr : Loose 0 rest) :
    ∃ e left, Operations left ∧ left.length ≤ xs.length ∧ (least = 1 → left = []) ∧
      lhs.Leads e ∧ outcome (readOperations least lhs (xs ++ rest)) = .ok (e, left ++ rest) := by
  -- the right side of an operator takes some operations, and reading goes on behind them
  induction hn : xs.length using Nat.strongRecOn generalizing xs least lhs with
  | ind n ih =>
    subst hn
    cases h with
    | nil =>
      exact ⟨lhs, [], .nil, Nat.le_refl _, fun _ => rfl, .refl, hr.outcome_readOperations hl lhs⟩
    | @cons x xs ys t op operator hx hys =>
      by_cases hlt : op.precedence < least
      · refine ⟨lhs, _, .cons operator hx hys, Nat.le_refl _, fun he => ?_, .refl,
          outcome_readOperations_of_lt operator hlt⟩
        have := op.precedence_pos
        omega
      · have hlen : ys.length < (t :: (xs ++ ys)).length := by
          simp only [List.length_cons, List.length_append]
          omega
        obtain ⟨rhs, left, hleft, hle, -, -, hright⟩ :=
          ih _ hlen hys (Nat.succ_pos op.precedence) x rfl
        obtain ⟨e, left', hleft', hle', hall, hleads, hread⟩ :=
          ih _ (Nat.lt_of_le_of_lt hle hlen) hleft hl (.binary op lhs rhs) rfl
        refine ⟨e, left', hleft', by omega, hall, (Expr.Leads.binary op rhs .refl).trans hleads, ?_⟩
        have hbinary : outcome (readBinary (op.precedence + 1) (xs ++ (ys ++ rest))) =
            .ok (rhs, left ++ rest) :=
          (outcome_readBinary (hx.outcome_readUnary (hys.apart hr))).trans hright
        rw [List.cons_append, List.append_assoc]
        exact (outcome_readOperations_of_le operator (by omega) hbinary).trans hread

end Operations

/-- Operands joined by operators, of which `e` is the first. -/
inductive Joined (e : Expr) : List Token → Prop
  | mk {xs ys : List Token} : Signed e xs → Operations ys → Joined e (xs ++ ys)

namespace Joined

variable {x y : Expr} {xs ys : List Token}

theorem of_signed (h : Signed x xs) : Joined x xs := by
  have := mk h .nil
  rwa [List.append_nil] at this

theorem append_operations (h : Joined x xs) (h' : Operations ys) : Joined x (xs ++ ys) := by
  obtain ⟨hx, hys⟩ := h
  rw [List.append_assoc]
  exact .mk hx (hys.append h')

theorem operation {t : Token} {op : BinaryOp} (operator : t.lexeme.binaryOp? = some op)
    (h : Joined x xs) (h' : Joined y ys) : Joined x (xs ++ t :: ys) := by
  obtain ⟨hy, hys⟩ := h'
  exact h.append_operations (.cons operator hy hys)

theorem exists_append_postfixes {f : Expr → Expr} (h : Joined x xs) (h' : Postfixes f ys) :
    ∃ x', Joined x' (xs ++ ys) ∧ (x.isOperation = false → x.Leads x') := by
  obtain @⟨us, vs, hx, hvs⟩ := h
  rw [List.append_assoc]
  by_cases hne : vs = []
  · subst hne
    obtain ⟨x', hx', hl⟩ := hx.exists_append h'
    exact ⟨x', of_signed hx', hl⟩
  · exact ⟨x, .mk hx (hvs.append_postfixes hne h'), fun _ => .refl⟩

/-- The operands of two expressions, the second of which goes on with the first, are joined. -/
theorem exists_append (h : Joined x xs) (h' : Joined y ys)
    (hs : ∀ t ∈ ys.head?, t.lexeme = .minus ∨ t.lexeme = .parenOpen) :
    ∃ x', Joined x' (xs ++ ys) ∧ (x.isOperation = false → x.Leads x') := by
  obtain @⟨us, vs, hy, hvs⟩ := h'
  cases hy with
  | primary hp =>
    obtain ⟨t, rest, rfl, hu, hargs⟩ := hp.start
    have ht : t.lexeme = .parenOpen := by
      refine (hs t rfl).resolve_left fun hm => ?_
      rw [hm] at hu
      cases hu
    obtain ⟨f, hf⟩ := hargs ht
    obtain ⟨x', hx', hl⟩ := h.exists_append_postfixes hf
    rw [← List.append_assoc]
    exact ⟨x', hx'.append_operations hvs, hl⟩
  | @sign e us t op hsign hu =>
    have ht : t.lexeme = .minus := by
      refine (hs t rfl).resolve_right fun hm => ?_
      rw [hm] at hsign
      cases hsign
    have operator : t.lexeme.binaryOp? = some .sub := by rw [ht]; rfl
    exact ⟨x, h.append_operations (.cons operator hu hvs), fun _ => .refl⟩

theorem exists_readBinary (h : Joined x xs) {rest : List Token} (hr : Loose 0 rest) :
    ∃ e, x.Leads e ∧ outcome (readBinary 1 (xs ++ rest)) = .ok (e, rest) := by
  obtain ⟨hx, hys⟩ := h
  obtain ⟨e, left, -, -, hall, hl, hread⟩ := hys.exists_readOperations (Nat.le_refl 1) x hr
  obtain rfl := hall rfl
  rw [List.append_assoc, outcome_readBinary (hx.outcome_readUnary (hys.apart hr)), hread]
  exact ⟨e, hl, rfl⟩

end Joined

namespace Expr

/-- The operands of an expression. -/
theorem exists_joined (line : Nat) : (e : Expr) →
    ∃ x, Joined x (onLine line e.lexemes) ∧ (e.isOperation = false → x = e)
  | unary op operand => by
    have ho := Signed.primary (primary line operand operand.isOperation id)
    exact ⟨_, .of_signed (.sign op.unaryOp?_lexeme ho), nofun⟩
  | binary op lhs rhs => by
    have side (e : Expr) (needed : Bool) (he : ∃ x, Joined x (onLine line e.lexemes)) :
        ∃ x, Joined x (onLine line (Lexeme.parenthesized needed e.lexemes)) := by
      cases needed with
      | false => exact he
      | true => exact ⟨e, .of_signed (.primary (primary line e true nofun))⟩
    obtain ⟨l, hl, -⟩ := exists_joined line lhs
    obtain ⟨r, hr, -⟩ := exists_joined line rhs
    obtain ⟨x, hx⟩ := side lhs (lhs.bindsLooser op) ⟨l, hl⟩
    obtain ⟨y, hy⟩ := side rhs (rhs.bindsNoTighter op) ⟨r, hr⟩
    refine ⟨x, ?_, nofun⟩
    have h := hx.operation (t := ⟨op.lexeme, line⟩) op.binaryOp?_lexeme hy
    rwa [← onLine_cons, ← onLine_append] at h
  | literal _ | ident _ | member _ _ | index _ _ | call _ _ =>
    ⟨_, .of_signed (.primary (primary line _ false fun _ => rfl)), fun _ => rfl⟩

/-- **Expressions run on.**  In front of an expression that starts with `-` or `(`, an expression
takes all of it; an expression that is no operation is then what the whole starts with. -/
theorem exists_readBinary_runOn (e e' : Expr) (line line' : Nat)
    (hs : ∀ l ∈ e'.lexemes.head?, l = .minus ∨ l = .parenOpen) {rest : List Token}
    (hr : Loose 0 rest) : ∃ m,
      outcome (readBinary 1 (onLine line e.lexemes ++ (onLine line' e'.lexemes ++ rest))) =
        .ok (m, rest) ∧ (e.isOperation = false → e.Leads m) := by
  obtain ⟨x, hx, he⟩ := exists_joined line e
  obtain ⟨y, hy, -⟩ := exists_joined line' e'
  have hstart : ∀ t ∈ (onLine line' e'.lexemes).head?,
      t.lexeme = .minus ∨ t.lexeme = .parenOpen := by
    intro t ht
    rw [onLine, List.head?_map] at ht
    obtain ⟨l, hl, rfl⟩ := Option.map_eq_some_iff.mp ht
    exact hs l hl
  obtain ⟨x', hx', hl⟩ := hx.exists_append hy hstart
  obtain ⟨m, hm, hread⟩ := hx'.exists_readBinary hr
  rw [List.append_assoc] at hread
  refine ⟨m, hread, fun hop => ?_⟩
  obtain rfl := he hop
  exact (hl hop).trans hm

end Expr

end MapScript
