import MapScript.Script.Parse

/-!
# What readers do

`outcome` forgets the bound on what is left, so that readers can be compared on different tokens.
Each reader then has one equation for every way in which it goes on.
-/

namespace MapScript

/-- Whether the text of an expression may start with the lexeme. -/
def Lexeme.opensExpr : Lexeme → Bool
  | .number _ | .ident _ | .minus | .bang | .parenOpen => true
  | _ => false

/-- Whether the lexeme starts a statement that does not start with an expression. -/
def Lexeme.opensStmt : Lexeme → Bool
  | .kwIf | .kwGoto | .labelMark | .kwReturn => true
  | _ => false

/-- Whether the lexeme goes on with a property, an index or arguments. -/
def Lexeme.isPostfix : Lexeme → Bool
  | .dot | .bracketOpen | .parenOpen => true
  | _ => false

namespace Script

/-- What was read and what is left, without the bound on it. -/
def outcome {α : Type} {p : List Token → Prop}
    (x : Except ParseError (α × { rest : List Token // p rest })) :
    Except ParseError (α × List Token) :=
  x.map fun y => (y.1, y.2.1)

theorem outcome_eq_ok {α : Type} {p : List Token → Prop}
    {x : Except ParseError (α × { rest : List Token // p rest })} {a : α} {rest : List Token} :
    outcome x = .ok (a, rest) ↔ ∃ h, x = .ok (a, ⟨rest, h⟩) := by
  constructor
  · intro h
    cases x with
    | error e => cases h
    | ok y =>
      obtain ⟨a', rest', h'⟩ := y
      cases h
      exact ⟨h', rfl⟩
  · rintro ⟨h, rfl⟩
    rfl

theorem outcome_bind_eq_ok {α β : Type} {p : List Token → Prop} {x : Except ParseError β}
    {f : β → Except ParseError (α × { rest : List Token // p rest })} {y : α × List Token} :
    outcome (x >>= f) = .ok y ↔ ∃ b, x = .ok b ∧ outcome (f b) = .ok y := by
  cases x with
  | error e =>
    constructor
    · intro h
      cases h
    · rintro ⟨b, h, -⟩
      cases h
  | ok b =>
    constructor
    · intro h
      exact ⟨b, rfl, h⟩
    · rintro ⟨b', h, h'⟩
      cases h
      exact h'

/-- A reader that goes on behind another one starts with what that one has left. -/
theorem exists_outcome_of_bind {α β : Type} {p q : List Token → Prop}
    {x : Except ParseError (β × { rest : List Token // q rest })}
    {f : β × { rest : List Token // q rest } →
      Except ParseError (α × { rest : List Token // p rest })} {y : α × List Token}
    (h : outcome (x >>= f) = .ok y) :
    ∃ b rest, ∃ hq : q rest, outcome x = .ok (b, rest) ∧ outcome (f (b, ⟨rest, hq⟩)) = .ok y := by
  obtain ⟨⟨b, rest, hq⟩, rfl, hf⟩ := outcome_bind_eq_ok.mp h
  exact ⟨b, rest, hq, rfl, hf⟩

theorem eq_cons_of_readLexeme {l : Lexeme} {wanted : Wanted} {tokens rest : List Token} {u : Unit}
    (h : outcome (readLexeme l wanted tokens) = .ok (u, rest)) :
    ∃ line, tokens = ⟨l, line⟩ :: rest := by
  unfold readLexeme at h
  split at h
  · next t more =>
    split at h
    · next ht =>
      cases h
      exact ⟨t.line, by rw [← ht]⟩
    · cases h
  · cases h

theorem eq_cons_of_readName {wanted : Wanted} {tokens rest : List Token} {name : String}
    (h : outcome (readName wanted tokens) = .ok (name, rest)) :
    ∃ line, tokens = ⟨.ident name, line⟩ :: rest := by
  unfold readName at h
  split at h
  · next name' line more =>
    cases h
    exact ⟨line, rfl⟩
  · cases h

/-! ## Expressions -/

section

variable {least line : Nat} {tokens rest : List Token} {t : Token} {e lhs : Expr}

theorem outcome_readBinary (h : outcome (readUnary tokens) = .ok (lhs, rest)) :
    outcome (readBinary least tokens) = outcome (readOperations least lhs rest) := by
  obtain ⟨h', hx⟩ := outcome_eq_ok.mp h
  rw [readBinary, hx]
  show outcome (readOperations least lhs rest >>= _) = _
  cases readOperations least lhs rest <;> rfl

theorem outcome_readOperations_nil : outcome (readOperations least lhs []) = .ok (lhs, []) := by
  rw [readOperations]
  rfl

theorem outcome_readOperations_of_none (ht : t.lexeme.binaryOp? = none) :
    outcome (readOperations least lhs (t :: rest)) = .ok (lhs, t :: rest) := by
  rw [readOperations]
  split
  · rfl
  · next op h =>
    rw [ht] at h
    cases h

theorem outcome_readOperations_of_lt {op : BinaryOp} (ht : t.lexeme.binaryOp? = some op)
    (hlt : op.precedence < least) :
    outcome (readOperations least lhs (t :: rest)) = .ok (lhs, t :: rest) := by
  rw [readOperations]
  split
  · rfl
  · next op' h =>
    rw [ht] at h
    cases h
    rw [if_pos hlt]
    rfl

theorem outcome_readOperations_of_le {op : BinaryOp} {rhs : Expr} {rest' : List Token}
    (ht : t.lexeme.binaryOp? = some op) (hle : least ≤ op.precedence)
    (h : outcome (readBinary (op.precedence + 1) rest) = .ok (rhs, rest')) :
    outcome (readOperations least lhs (t :: rest)) =
      outcome (readOperations least (.binary op lhs rhs) rest') := by
  obtain ⟨h', hx⟩ := outcome_eq_ok.mp h
  rw [readOperations]
  split
  · next hn =>
    rw [ht] at hn
    cases hn
  · next op' ho =>
    rw [ht] at ho
    cases ho
    rw [if_neg (by omega), hx]
    show outcome (readOperations least (.binary op lhs rhs) rest' >>= _) = _
    cases readOperations least (.binary op lhs rhs) rest' <;> rfl

theorem outcome_readUnary_of_some {op : UnaryOp} (ht : t.lexeme.unaryOp? = some op)
    (h : outcome (readUnary tokens) = .ok (e, rest)) :
    outcome (readUnary (t :: tokens)) = .ok (.unary op e, rest) := by
  obtain ⟨h', hx⟩ := outcome_eq_ok.mp h
  rw [readUnary]
  split
  · next op' ho =>
    rw [ht] at ho
    cases ho
    rw [hx]
    rfl
  · next hn =>
    rw [ht] at hn
    cases hn

theorem outcome_readUnary_of_none (ht : t.lexeme.unaryOp? = none)
    (h : outcome (readPrimary (t :: tokens)) = .ok (e, rest)) :
    outcome (readUnary (t :: tokens)) = outcome (readPostfix e rest) := by
  obtain ⟨h', hx⟩ := outcome_eq_ok.mp h
  rw [readUnary]
  split
  · next op ho =>
    rw [ht] at ho
    cases ho
  · rw [hx]
    show outcome (readPostfix e rest >>= _) = _
    cases readPostfix e rest <;> rfl

theorem outcome_readPrimary_number (lit : Literal) :
    outcome (readPrimary (⟨.number lit, line⟩ :: rest)) = .ok (.literal lit, rest) := by
  rw [readPrimary]
  rfl

theorem outcome_readPrimary_ident (name : String) :
    outcome (readPrimary (⟨.ident name, line⟩ :: rest)) = .ok (.ident name, rest) := by
  rw [readPrimary]
  rfl

theorem outcome_readPrimary_paren {line' : Nat}
    (h : outcome (readBinary 1 tokens) = .ok (e, ⟨.parenClose, line'⟩ :: rest)) :
    outcome (readPrimary (⟨.parenOpen, line⟩ :: tokens)) = .ok (e, rest) := by
  obtain ⟨h', hx⟩ := outcome_eq_ok.mp h
  rw [readPrimary, hx]
  rfl

theorem outcome_readPostfix_member (name : String) {line' : Nat} :
    outcome (readPostfix e (⟨.dot, line⟩ :: ⟨.ident name, line'⟩ :: rest)) =
      outcome (readPostfix (.member e name) rest) := by
  rw [readPostfix]
  show outcome (readPostfix (.member e name) rest >>= _) = _
  cases readPostfix (.member e name) rest <;> rfl

theorem outcome_readPostfix_index {i : Expr} {line' : Nat}
    (h : outcome (readBinary 1 tokens) = .ok (i, ⟨.bracketClose, line'⟩ :: rest)) :
    outcome (readPostfix e (⟨.bracketOpen, line⟩ :: tokens)) =
      outcome (readPostfix (.index e i) rest) := by
  obtain ⟨h', hx⟩ := outcome_eq_ok.mp h
  rw [readPostfix, hx]
  show outcome (readPostfix (.index e i) rest >>= _) = _
  cases readPostfix (.index e i) rest <;> rfl

theorem outcome_readPostfix_call {args : List Expr}
    (h : outcome (readArguments tokens) = .ok (args, rest)) :
    outcome (readPostfix e (⟨.parenOpen, line⟩ :: tokens)) =
      outcome (readPostfix (.call e args) rest) := by
  obtain ⟨h', hx⟩ := outcome_eq_ok.mp h
  rw [readPostfix, hx]
  show outcome (readPostfix (.call e args) rest >>= _) = _
  cases readPostfix (.call e args) rest <;> rfl

theorem outcome_readPostfix_of_not (h : ∀ t ∈ tokens.head?, t.lexeme.isPostfix = false) :
    outcome (readPostfix e tokens) = .ok (e, tokens) := by
  rw [readPostfix]
  · rfl
  all_goals
    rintro line rest rfl
    cases h _ rfl

theorem outcome_readArguments_nil :
    outcome (readArguments (⟨.parenClose, line⟩ :: rest)) = .ok ([], rest) := by
  rw [readArguments]
  rfl

theorem outcome_readArguments_of_ne (h : ∀ t ∈ tokens.head?, t.lexeme ≠ .parenClose) :
    outcome (readArguments tokens) = outcome (readMoreArguments tokens) := by
  rw [readArguments]
  rintro line rest rfl
  exact h _ rfl rfl

theorem outcome_readMoreArguments {arg : Expr} {args : List Expr} {rest' : List Token}
    (h : outcome (readBinary 1 tokens) = .ok (arg, rest))
    (hr : outcome (readArgumentsTail rest) = .ok (args, rest')) :
    outcome (readMoreArguments tokens) = .ok (arg :: args, rest') := by
  obtain ⟨h', hx⟩ := outcome_eq_ok.mp h
  obtain ⟨h'', hy⟩ := outcome_eq_ok.mp hr
  rw [readMoreArguments, hx]
  show outcome (readArgumentsTail rest >>= _) = _
  rw [hy]
  rfl

theorem outcome_readArgumentsTail_comma {args : List Expr}
    (h : outcome (readMoreArguments tokens) = .ok (args, rest)) :
    outcome (readArgumentsTail (⟨.comma, line⟩ :: tokens)) = .ok (args, rest) := by
  obtain ⟨h', hx⟩ := outcome_eq_ok.mp h
  rw [readArgumentsTail, hx]
  rfl

theorem outcome_readArgumentsTail_close :
    outcome (readArgumentsTail (⟨.parenClose, line⟩ :: rest)) = .ok ([], rest) := by
  rw [readArgumentsTail]
  · rfl
  · simp

end

/-! ## Statements -/

section

variable {line line' : Nat} {tokens rest rest' : List Token} {e : Expr} {s : Stmt}
  {ss : List Stmt}

theorem outcome_readAssign_eq_ok :
    outcome (readAssign e (⟨.assign, line⟩ :: tokens)) = .ok (s, rest) ↔
      ∃ value, outcome (readBinary 1 tokens) = .ok (value, rest) ∧ s = .assign e value := by
  rw [readAssign, readExpr, outcome_bind_eq_ok]
  constructor
  · rintro ⟨⟨value, rest', h'⟩, hx, h⟩
    cases h
    exact ⟨value, outcome_eq_ok.mpr ⟨h', hx⟩, rfl⟩
  · rintro ⟨value, h, rfl⟩
    obtain ⟨h', hx⟩ := outcome_eq_ok.mp h
    exact ⟨_, hx, rfl⟩

theorem outcome_readAssign_of_ne (h : ∀ t ∈ tokens.head?, t.lexeme ≠ .assign) :
    outcome (readAssign e tokens) = .ok (.expr e, tokens) := by
  rw [readAssign]
  · rfl
  · rintro line rest rfl
    exact h _ rfl rfl

theorem outcome_readStmt_if_eq_ok
    (h : outcome (readBinary 1 tokens) = .ok (e, ⟨.kwThen, line'⟩ :: rest)) :
    outcome (readStmt (⟨.kwIf, line⟩ :: tokens)) = .ok (s, rest') ↔
      ∃ body, outcome (readBody rest) = .ok (body, rest') ∧ s = .ifThen e body := by
  obtain ⟨h', hx⟩ := outcome_eq_ok.mp h
  rw [readStmt, readExpr, hx]
  show outcome (readBody rest >>= _) = _ ↔ _
  rw [outcome_bind_eq_ok]
  constructor
  · rintro ⟨⟨body, rest₃, h₃⟩, hb, h⟩
    cases h
    exact ⟨body, outcome_eq_ok.mpr ⟨h₃, hb⟩, rfl⟩
  · rintro ⟨body, hb, rfl⟩
    obtain ⟨h₃, hb⟩ := outcome_eq_ok.mp hb
    exact ⟨_, hb, rfl⟩

theorem outcome_readStmt_goto (name : String) :
    outcome (readStmt (⟨.kwGoto, line⟩ :: ⟨.ident name, line'⟩ :: rest)) =
      .ok (.goto name, rest) := by
  rw [readStmt]
  rfl

theorem outcome_readStmt_label (name : String) {line₂ : Nat} :
    outcome (readStmt
      (⟨.labelMark, line⟩ :: ⟨.ident name, line'⟩ :: ⟨.labelMark, line₂⟩ :: rest)) =
      .ok (.label name, rest) := by
  rw [readStmt]
  rfl

theorem outcome_readStmt_ret :
    outcome (readStmt (⟨.kwReturn, line⟩ :: rest)) = .ok (.ret, rest) := by
  rw [readStmt]
  rfl

theorem outcome_readBody_end :
    outcome (readBody (⟨.kwEnd, line⟩ :: rest)) = .ok ([], rest) := by
  rw [readBody]
  rfl

theorem outcome_readBody_eq_ok (hne : ∀ t ∈ tokens.head?, t.lexeme ≠ .kwEnd) :
    outcome (readBody tokens) = .ok (ss, rest') ↔ ∃ s rest body,
      outcome (readStmt tokens) = .ok (s, rest) ∧ outcome (readBody rest) = .ok (body, rest') ∧
      ss = s :: body := by
  cases tokens with
  | nil =>
    rw [readBody, readStmt]
    constructor
    · intro h
      cases h
    · rintro ⟨s, rest, body, h, -⟩
      cases h
  | cons t tokens =>
    rw [readBody, outcome_bind_eq_ok]
    · constructor
      · rintro ⟨⟨s, rest, hr⟩, hs, h⟩
        obtain ⟨⟨body, rest₂, hr₂⟩, hb, h⟩ := outcome_bind_eq_ok.mp h
        cases h
        exact ⟨s, rest, body, outcome_eq_ok.mpr ⟨hr, hs⟩, outcome_eq_ok.mpr ⟨hr₂, hb⟩, rfl⟩
      · rintro ⟨s, rest, body, hs, hb, rfl⟩
        obtain ⟨hr, hs⟩ := outcome_eq_ok.mp hs
        obtain ⟨hr₂, hb⟩ := outcome_eq_ok.mp hb
        exact ⟨_, hs, outcome_bind_eq_ok.mpr ⟨_, hb, rfl⟩⟩
    · simp
    · rintro line rest ⟨⟩
      exact hne _ rfl rfl

theorem parse_nil : parse [] = .ok [] := by
  rw [parse]

theorem parse_eq_ok (hne : tokens ≠ []) : parse tokens = .ok ss ↔ ∃ s rest body,
    outcome (readStmt tokens) = .ok (s, rest) ∧ parse rest = .ok body ∧ ss = s :: body := by
  rw [parse]
  · constructor
    · intro h
      cases hs : readStmt tokens with
      | error err =>
        rw [hs] at h
        cases h
      | ok x =>
        obtain ⟨s, rest, hr⟩ := x
        rw [hs] at h
        cases hp : parse rest with
        | error err => simp [hp, bind, Except.bind] at h
        | ok body =>
          simp only [hp, bind, Except.bind] at h
          cases h
          exact ⟨s, rest, body, rfl, hp, rfl⟩
    · rintro ⟨s, rest, body, h, hp, rfl⟩
      obtain ⟨h', hs⟩ := outcome_eq_ok.mp h
      rw [hs]
      show (parse rest >>= _) = _
      rw [hp]
      rfl
  · exact hne

/-- What is none of the words that start a statement starts an expression. -/
theorem outcome_readStmt_expr {l : Lexeme} (hl : l.opensStmt = false)
    (h : outcome (readBinary 1 (⟨l, line⟩ :: tokens)) = .ok (e, rest)) :
    outcome (readStmt (⟨l, line⟩ :: tokens)) = outcome (readAssign e rest) := by
  obtain ⟨h', hx⟩ := outcome_eq_ok.mp h
  rw [readStmt]
  · rw [readExpr, hx]
    show outcome (readAssign e rest >>= _) = _
    cases readAssign e rest <;> rfl
  · simp
  all_goals
    intro line rest he
    cases he
    cases hl

/-- No statement starts with `=`. -/
theorem head_ne_assign_of_readStmt (h : outcome (readStmt tokens) = .ok (s, rest)) :
    ∀ t ∈ tokens.head?, t.lexeme ≠ .assign := by
  rintro ⟨l, line⟩ ht rfl
  obtain ⟨tokens, rfl⟩ : ∃ more, tokens = ⟨.assign, line⟩ :: more := List.head?_eq_some_iff.mp ht
  have hu : readUnary (⟨.assign, line⟩ :: tokens) =
      .error (.unexpected .expression ⟨.assign, line⟩) := by
    rw [readUnary]
    show (readPrimary _ >>= _) = _
    rw [readPrimary]
    · rfl
    all_goals simp
  rw [readStmt, readExpr, readBinary, hu] at h
  · cases h
  all_goals simp

theorem head_ne_assign_of_readBody (h : outcome (readBody tokens) = .ok (ss, rest)) :
    ∀ t ∈ tokens.head?, t.lexeme ≠ .assign := by
  by_cases hne : ∀ t ∈ tokens.head?, t.lexeme ≠ .kwEnd
  · obtain ⟨s, rest, body, hs, -⟩ := (outcome_readBody_eq_ok hne).mp h
    exact head_ne_assign_of_readStmt hs
  · intro t ht hassign
    refine hne fun t' ht' => ?_
    cases ht.symm.trans ht'
    simp [hassign]

theorem head_ne_assign_of_parse (h : parse tokens = .ok ss) :
    ∀ t ∈ tokens.head?, t.lexeme ≠ .assign := by
  cases tokens with
  | nil => exact nofun
  | cons t tokens =>
    obtain ⟨s, rest, body, hs, -⟩ := (parse_eq_ok (List.cons_ne_nil t tokens)).mp h
    exact head_ne_assign_of_readStmt hs

end

end Script

end MapScript
