import MapScript.Token
import MapScript.Token.Comment
import MapScript.Text.Quoted

/-!
# From text to tokens

Each line is read for itself, without its comment.  At every place the longest lexeme is taken: a
run of letters, digits and underscores is one word, and a symbol of two characters goes before a
symbol of one.
-/

namespace MapScript.Token

/-- Why a text has no tokens. -/
inductive ScanError
  | unexpectedChar (c : Char) (line : Nat)
  | badNumber (text : String) (line : Nat)
deriving DecidableEq

def ScanError.message : ScanError → String
  | unexpectedChar c line =>
    "unexpected character " ++ Text.quotedChar c ++ " at line " ++ Numeral.decimal line
  | badNumber text line =>
    "invalid number " ++ Text.quoted text ++ " at line " ++ Numeral.decimal line

def isWordStart (c : Char) : Bool := c.isAlpha || c == '_'

def isWordChar (c : Char) : Bool := c.isAlphanum || c == '_'

/-- Reads a word that starts with a digit. -/
def readNumber (line : Nat) (word : List Char) : Except ScanError Literal :=
  let read : Except Numeral.Fault Literal :=
    match word with
    | '0' :: 'x' :: digits | '0' :: 'X' :: digits =>
      (Numeral.readLong 16 digits).map fun v => ⟨v, .hex⟩
    | digits => (Numeral.readLong 10 digits).map fun v => ⟨v, .decimal⟩
  match read with
  | .ok lit => .ok lit
  | .error _ => .error (.badNumber (String.ofList word) line)

/-- The longest symbol that starts with `c`, and how many characters it takes of `rest`. -/
def symbol? (c : Char) (rest : List Char) : Option (Lexeme × Nat) :=
  match rest.head?.bind (Lexeme.ofPair? c) with
  | some l => some (l, 1)
  | none => (Lexeme.ofChar? c).map (·, 0)

theorem length_dropWhile_le (p : Char → Bool) (cs : List Char) :
    (cs.dropWhile p).length ≤ cs.length :=
  (List.dropWhile_sublist p).length_le

/-- The tokens of a line that holds no comment. -/
def scanLine (line : Nat) : List Char → Except ScanError (List Token)
  | [] => .ok []
  | c :: rest =>
    if Text.isBlank c then scanLine line rest
    else if c.isDigit then do
      let lit ← readNumber line (c :: rest.takeWhile isWordChar)
      let more ← scanLine line (rest.dropWhile isWordChar)
      return ⟨.number lit, line⟩ :: more
    else if isWordStart c then do
      let more ← scanLine line (rest.dropWhile isWordChar)
      return ⟨.ofWord (String.ofList (c :: rest.takeWhile isWordChar)), line⟩ :: more
    else
      match symbol? c rest with
      | none => .error (.unexpectedChar c line)
      | some (l, extra) => do
        let more ← scanLine line (rest.drop extra)
        return ⟨l, line⟩ :: more
termination_by cs => cs.length
decreasing_by
  · exact Nat.lt_succ_self _
  · exact Nat.lt_succ_of_le (length_dropWhile_le isWordChar rest)
  · exact Nat.lt_succ_of_le (length_dropWhile_le isWordChar rest)
  · rw [List.length_drop, List.length_cons]
    omega

/-- The tokens of lines of which the first has the given number. -/
def scanLines (line : Nat) : List (List Char) → Except ScanError (List Token)
  | [] => .ok []
  | l :: rest => do
    let tokens ← scanLine line (withoutComment l)
    let more ← scanLines (line + 1) rest
    return tokens ++ more

def scan (text : String) : Except ScanError (List Token) := scanLines 1 (Text.lines text.toList)

end MapScript.Token
