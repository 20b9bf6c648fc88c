import MapScript.Expr

/-!
# Tokens

A token is a lexeme with the number of its line, counted from one.
-/

namespace MapScript

inductive Lexeme
  | number (lit : Literal)
  | ident (name : String)
  | kwIf
  | kwThen
  | kwEnd
  | kwGoto
  | kwReturn
  | kwAnd
  | kwOr
  | kwNot
  | plus
  | minus
  | star
  | slash
  | bang
  | amp
  | pipe
  | less
  | greater
  | lessEq
  | greaterEq
  | eqEq
  | notEq
  | shiftLeft
  | shiftRight
  | dot
  | comma
  | assign
  | colon
  /-- `::`, on both sides of a label. -/
  | labelMark
  | parenOpen
  | parenClose
  | bracketOpen
  | bracketClose
deriving DecidableEq

structure Token where
  lexeme : Lexeme
  line : Nat
deriving DecidableEq

namespace Lexeme

def keywords : List (String × Lexeme) :=
  [("if", kwIf), ("then", kwThen), ("end", kwEnd), ("goto", kwGoto), ("return", kwReturn),
   ("and", kwAnd), ("or", kwOr), ("not", kwNot)]

/-- A word is a keyword or a name. -/
def ofWord (word : String) : Lexeme := (keywords.lookup word).getD (ident word)

/-- The symbols of two characters. -/
def ofPair? : Char → Char → Option Lexeme
  | '!', '=' => some notEq
  | '=', '=' => some eqEq
  | '<', '=' => some lessEq
  | '<', '<' => some shiftLeft
  | '>', '=' => some greaterEq
  | '>', '>' => some shiftRight
  | ':', ':' => some labelMark
  | _, _ => none

/-- The symbols of one character. -/
def ofChar? : Char → Option Lexeme
  | '+' => some plus
  | '-' => some minus
  | '*' => some star
  | '/' => some slash
  | '&' => some amp
  | '|' => some pipe
  | '.' => some dot
  | ',' => some comma
  | '(' => some parenOpen
  | ')' => some parenClose
  | '[' => some bracketOpen
  | ']' => some bracketClose
  | '!' => some bang
  | '=' => some assign
  | '<' => some less
  | '>' => some greater
  | ':' => some colon
  | _ => none

/-- How the lexeme is written, for those that are always written alike. -/
def spelling : Lexeme → String
  | number lit => lit.text
  | ident name => name
  | kwIf => "if"
  | kwThen => "then"
  | kwEnd => "end"
  | kwGoto => "goto"
  | kwReturn => "return"
  | kwAnd => "and"
  | kwOr => "or"
  | kwNot => "not"
  | plus => "+"
  | minus => "-"
  | star => "*"
  | slash => "/"
  | bang => "!"
  | amp => "&"
  | pipe => "|"
  | less => "<"
  | greater => ">"
  | lessEq => "<="
  | greaterEq => ">="
  | eqEq => "=="
  | notEq => "!="
  | shiftLeft => "<<"
  | shiftRight => ">>"
  | dot => "."
  | comma => ","
  | assign => "="
  | colon => ":"
  | labelMark => "::"
  | parenOpen => "("
  | parenClose => ")"
  | bracketOpen => "["
  | bracketClose => "]"

/-- How messages name the lexeme. -/
def describe : Lexeme → String
  | number lit => "number " ++ lit.text
  | ident name => "identifier `" ++ name ++ "`"
  | l => "`" ++ l.spelling ++ "`"

/-- The operator that a lexeme stands for between two operands. -/
def binaryOp? : Lexeme → Option BinaryOp
  | kwOr => some .or
  | kwAnd => some .and
  | less => some .lt
  | greater => some .gt
  | lessEq => some .le
  | greaterEq => some .ge
  | eqEq => some .eq
  | notEq => some .ne
  | pipe => some .bitOr
  | amp => some .bitAnd
  | shiftLeft => some .shl
  | shiftRight => some .shr
  | plus => some .add
  | minus => some .sub
  | star => some .mul
  | slash => some .div
  | _ => none

/-- The operator that a lexeme stands for before an operand. -/
def unaryOp? : Lexeme → Option UnaryOp
  | minus => some .neg
  | bang | kwNot => some .not
  | _ => none

end Lexeme

end MapScript
