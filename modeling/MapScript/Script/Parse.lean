import MapScript.Stmt
import MapScript.Token

/-!
# From tokens to statements

The grammar, from the loosest form to the tightest:

    script  = stmt*
    stmt    = if E then stmt* end | goto name | :: name :: | return | E | E = E
    E       = operands joined by binary operators, by precedence and to the left
    operand = (- | ! | not)* postfix
    postfix = primary (. name | [ E ] | ( E, ... ))*
    primary = number | name | ( E )

Statements need no separator, so each expression takes as many tokens as it can.  Every reader
returns the tokens that are left together with the proof that it has used some (`Parsed`) or at
least added none (`Continued`); that is why reading ends.
-/

namespace MapScript.Script

/-! ## Errors -/

/-- What a reader looked for. -/
inductive Wanted
  | statement
  | expression
  | labelAt
  | propertyName
  | thenWord
  | endWord
  | labelMark
  | closingBracket
  | closingParen
  | commaOrClosingParen
deriving DecidableEq

def Wanted.text : Wanted → String
  | statement => "statement"
  | expression => "expression"
  | labelAt => "label name"
  | propertyName => "property name"
  | thenWord => "`then`"
  | endWord => "`end`"
  | labelMark => "`::`"
  | closingBracket => "`]`"
  | closingParen => "`)`"
  | commaOrClosingParen => "`,` or `)`"

inductive ParseError
  | unexpected (wanted : Wanted) (found : Token)
  | unexpectedEnd (wanted : Wanted)
deriving DecidableEq

def ParseError.message : ParseError → String
  | unexpected wanted found =>
    "expected " ++ wanted.text ++ ", found " ++ found.lexeme.describe ++ " at line " ++
      Numeral.decimal found.line
  | unexpectedEnd wanted => "expected " ++ wanted.text ++ ", found end of input"

/-- The error at the next token. -/
def ParseError.at (wanted : Wanted) : List Token → ParseError
  | [] => unexpectedEnd wanted
  | t :: _ => unexpected wanted t

/-! ## Results -/

/-- A value read off the front of `tokens`, and what is left. -/
abbrev Parsed (α : Type) (tokens : List Token) : Type :=
  α × { rest : List Token // rest.length < tokens.length }

/-- A value read off the front of `tokens`, possibly from no token, and what is left. -/
abbrev Continued (α : Type) (tokens : List Token) : Type :=
  α × { rest : List Token // rest.length ≤ tokens.length }

/-- Reads one given lexeme. -/
def readLexeme (l : Lexeme) (wanted : Wanted) :
    (tokens : List Token) → Except ParseError (Parsed Unit tokens)
  | t :: rest =>
    if t.lexeme = l then .ok ((), ⟨rest, Nat.lt_succ_self _⟩) else .error (.unexpected wanted t)
  | [] => .error (.unexpectedEnd wanted)

/-- Reads a name. -/
def readName (wanted : Wanted) :
    (tokens : List Token) → Except ParseError (Parsed String tokens)
  | ⟨.ident name, _⟩ :: rest => .ok (name, ⟨rest, Nat.lt_succ_self _⟩)
  | tokens => .error (.at wanted tokens)

/-! ## Expressions -/

mutual

/-- Operands joined by operators of at least the given precedence. -/
def readBinary (least : Nat) (tokens : List Token) : Except ParseError (Parsed Expr tokens) := do
  let (lhs, ⟨rest, h⟩) ← readUnary tokens
  let (e, ⟨rest₁, h₁⟩) ← readOperations least lhs rest
  return (e, ⟨rest₁, by omega⟩)
termination_by 8 * tokens.length + 3

/-- Goes on behind the operand `lhs`. -/
def readOperations (least : Nat) (lhs : Expr) (tokens : List Token) :
    Except ParseError (Continued Expr tokens) :=
  match tokens with
  | [] => .ok (lhs, ⟨[], Nat.le_refl _⟩)
  | t :: rest =>
    match t.lexeme.binaryOp? with
    | none => .ok (lhs, ⟨t :: rest, Nat.le_refl _⟩)
    | some op =>
      if op.precedence < least then .ok (lhs, ⟨t :: rest, Nat.le_refl _⟩)
      else do
        let (rhs, ⟨rest₁, h⟩) ← readBinary (op.precedence + 1) rest
        let (e, ⟨rest₂, h₁⟩) ← readOperations least (.binary op lhs rhs) rest₁
        return (e, ⟨rest₂, by rw [List.length_cons]; omega⟩)
termination_by 8 * tokens.length + 3

/-- An operand with the operators before it. -/
def readUnary (tokens : List Token) : Except ParseError (Parsed Expr tokens) :=
  match tokens with
  | [] => .error (.unexpectedEnd .expression)
  | t :: rest =>
    match t.lexeme.unaryOp? with
    | some op => do
      let (e, ⟨rest₁, h⟩) ← readUnary rest
      return (.unary op e, ⟨rest₁, by rw [List.length_cons]; omega⟩)
    | none => do
      let (e, ⟨rest₁, h⟩) ← readPrimary (t :: rest)
      have : rest₁.length < rest.length + 1 := h
      let (e', ⟨rest₂, h₁⟩) ← readPostfix e rest₁
      return (e', ⟨rest₂, by omega⟩)
termination_by 8 * tokens.length + 2

/-- Goes on behind `e` with properties, indices and arguments. -/
def readPostfix (e : Expr) (tokens : List Token) : Except ParseError (Continued Expr tokens) :=
  match tokens with
  | ⟨.dot, _⟩ :: rest => do
    let (name, ⟨rest₁, h⟩) ← readName .propertyName rest
    let (e', ⟨rest₂, h₁⟩) ← readPostfix (.member e name) rest₁
    return (e', ⟨rest₂, by rw [List.length_cons]; omega⟩)
  | ⟨.bracketOpen, _⟩ :: rest => do
    let (i, ⟨rest₁, h⟩) ← readBinary 1 rest
    let (_, ⟨rest₂, h₁⟩) ← readLexeme .bracketClose .closingBracket rest₁
    let (e', ⟨rest₃, h₂⟩) ← readPostfix (.index e i) rest₂
    return (e', ⟨rest₃, by rw [List.length_cons]; omega⟩)
  | ⟨.parenOpen, _⟩ :: rest => do
    let (args, ⟨rest₁, h⟩) ← readArguments rest
    let (e', ⟨rest₂, h₁⟩) ← readPostfix (.call e args) rest₁
    return (e', ⟨rest₂, by rw [List.length_cons]; omega⟩)
  | tokens => .ok (e, ⟨tokens, Nat.le_refl _⟩)
termination_by 8 * tokens.length

/-- Arguments up to the closing parenthesis. -/
def readArguments (tokens : List Token) : Except ParseError (Parsed (List Expr) tokens) :=
  match tokens with
  | ⟨.parenClose, _⟩ :: rest => .ok ([], ⟨rest, Nat.lt_succ_self _⟩)
  | tokens => readMoreArguments tokens
termination_by 8 * tokens.length + 5

/-- At least one argument, up to the closing parenthesis. -/
def readMoreArguments (tokens : List Token) : Except ParseError (Parsed (List Expr) tokens) := do
  let (arg, ⟨rest, h⟩) ← readBinary 1 tokens
  let (args, ⟨rest₁, h₁⟩) ← readArgumentsTail rest
  return (arg :: args, ⟨rest₁, by omega⟩)
termination_by 8 * tokens.length + 4

/-- What may follow an argument: a comma and more of them, or the closing parenthesis. -/
def readArgumentsTail (tokens : List Token) : Except ParseError (Parsed (List Expr) tokens) :=
  match tokens with
  | ⟨.comma, _⟩ :: rest => do
    let (args, ⟨rest₁, h⟩) ← readMoreArguments rest
    return (args, ⟨rest₁, by rw [List.length_cons]; omega⟩)
  | tokens => do
    let (_, rest) ← readLexeme .parenClose .commaOrClosingParen tokens
    return ([], rest)
termination_by 8 * tokens.length

/-- A number, a name or an expression in parentheses. -/
def readPrimary (tokens : List Token) : Except ParseError (Parsed Expr tokens) :=
  match tokens with
  | ⟨.number lit, _⟩ :: rest => .ok (.literal lit, ⟨rest, Nat.lt_succ_self _⟩)
  | ⟨.ident name, _⟩ :: rest => .ok (.ident name, ⟨rest, Nat.lt_succ_self _⟩)
  | ⟨.parenOpen, _⟩ :: rest => do
    let (e, ⟨rest₁, h⟩) ← readBinary 1 rest
    let (_, ⟨rest₂, h₁⟩) ← readLexeme .parenClose .closingParen rest₁
    return (e, ⟨rest₂, by rw [List.length_cons]; omega⟩)
  | tokens => .error (.at .expression tokens)
termination_by 8 * tokens.length + 1

end

def readExpr (tokens : List Token) : Except ParseError (Parsed Expr tokens) := readBinary 1 tokens

/-! ## Statements -/

/-- Goes on behind the expression `e`: it is the target of an assignment or a statement. -/
def readAssign (e : Expr) (tokens : List Token) : Except ParseError (Continued Stmt tokens) :=
  match tokens with
  | ⟨.assign, _⟩ :: rest => do
    let (value, ⟨rest₁, h⟩) ← readExpr rest
    return (.assign e value, ⟨rest₁, by rw [List.length_cons]; omega⟩)
  | tokens => .ok (.expr e, ⟨tokens, Nat.le_refl _⟩)

mutual

def readStmt (tokens : List Token) : Except ParseError (Parsed Stmt tokens) :=
  match tokens with
  | [] => .error (.unexpectedEnd .statement)
  | ⟨.kwIf, _⟩ :: rest => do
    let (condition, ⟨rest₁, h⟩) ← readExpr rest
    let (_, ⟨rest₂, h₁⟩) ← readLexeme .kwThen .thenWord rest₁
    let (body, ⟨rest₃, h₂⟩) ← readBody rest₂
    return (.ifThen condition body, ⟨rest₃, by rw [List.length_cons]; omega⟩)
  | ⟨.kwGoto, _⟩ :: rest => do
    let (name, ⟨rest₁, h⟩) ← readName .labelAt rest
    return (.goto name, ⟨rest₁, by rw [List.length_cons]; omega⟩)
  | ⟨.labelMark, _⟩ :: rest => do
    let (name, ⟨rest₁, h⟩) ← readName .labelAt rest
    let (_, ⟨rest₂, h₁⟩) ← readLexeme .labelMark .labelMark rest₁
    return (.label name, ⟨rest₂, by rw [List.length_cons]; omega⟩)
  | ⟨.kwReturn, _⟩ :: rest => .ok (.ret, ⟨rest, Nat.lt_succ_self _⟩)
  | tokens => do
    let (e, ⟨rest, h⟩) ← readExpr tokens
    let (s, ⟨rest₁, h₁⟩) ← readAssign e rest
    return (s, ⟨rest₁, by omega⟩)
termination_by 2 * tokens.length

/-- Statements up to the word that ends them. -/
def readBody (tokens : List Token) : Except ParseError (Parsed (List Stmt) tokens) :=
  match tokens with
  | [] => .error (.unexpectedEnd .endWord)
  | ⟨.kwEnd, _⟩ :: rest => .ok ([], ⟨rest, Nat.lt_succ_self _⟩)
  | tokens => do
    let (s, ⟨rest, h⟩) ← readStmt tokens
    let (more, ⟨rest₁, h₁⟩) ← readBody rest
    return (s :: more, ⟨rest₁, by omega⟩)
termination_by 2 * tokens.length + 1

end

/-- Reads all tokens as a script. -/
def parse (tokens : List Token) : Except ParseError (List Stmt) :=
  match tokens with
  | [] => .ok []
  | tokens => do
    let (s, ⟨rest, _⟩) ← readStmt tokens
    let more ← parse rest
    return s :: more
termination_by tokens.length

end MapScript.Script
