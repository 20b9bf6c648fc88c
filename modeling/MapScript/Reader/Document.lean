import MapScript.Numeral
import MapScript.Reader.Folded

/-!
# Documents

The data that a manifest is written in: words, texts, lists and records, as JSON writes them.  What
a word means is left to those who read it.  A text may run over several lines, which are folded into
one (`Text.foldSpacing`).  Reading goes by way of marks (`Mark.scan`) and fails with `none` on any
other text.
-/

namespace MapScript

inductive Document
  /-- What stands without quotes: a number, a truth value or `null`. -/
  | word (s : String)
  | text (s : String)
  | list (items : List Document)
  /-- The fields in the order in which they are written. -/
  | record (fields : List (String × Document))

namespace Document

/-! ## Characters -/

/-- Whether a document may hold a character as it is, not written as an escape. -/
def isAllowed (c : Char) : Bool :=
  let n := c.toNat
  c = '\t' || c = '\n' || c = '\r' || c = '\x85' || (0x20 ≤ n && n ≤ 0x7E)
    || (0xA0 ≤ n && n ≤ 0xFFFD) || 0x10000 ≤ n

/-- Three dashes or dots with spacing behind them.  Where a line starts so, one document is
divided from the next, even within a text. -/
def isDivider : List Char → Bool
  | '-' :: '-' :: '-' :: c :: _ => Text.isSpacing c
  | '.' :: '.' :: '.' :: c :: _ => Text.isSpacing c
  | _ => false

/-! ## Marks -/

inductive Mark
  | openBrace
  | closeBrace
  | openBracket
  | closeBracket
  | colon
  | comma
  /-- A document that is neither a list nor a record. -/
  | atom (d : Document)

/-- Four hexadecimal digits as a number, and what follows. -/
def readCodePoint : List Char → Option (Nat × List Char)
  | a :: b :: c :: d :: rest => do
    let a ← Numeral.digit? 16 a
    let b ← Numeral.digit? 16 b
    let c ← Numeral.digit? 16 c
    let d ← Numeral.digit? 16 d
    return (((a * 16 + b) * 16 + c) * 16 + d, rest)
  | _ => none

/-- The character with a four-digit code point, and what follows.  The code points from D800 to
DFFF are no characters. -/
def readEscapedChar (cs : List Char) : Option (Char × List Char) := do
  let (n, rest) ← readCodePoint cs
  guard n.isValidChar
  return (Char.ofNat n, rest)

/-- The characters that a backslash and one letter stand for. -/
def escape? : Char → Option Char
  | '"' => some '"'
  | '\\' => some '\\'
  | '/' => some '/'
  | 'b' => some '\x08'
  | 'f' => some '\x0c'
  | 'n' => some '\n'
  | 'r' => some '\r'
  | 't' => some '\t'
  | _ => none

/-- Reads a text behind its opening quote, for at most `fuel` characters. -/
def readText : Nat → List Char → Option (List Char × List Char)
  | 0, _ => none
  | fuel + 1, cs =>
    match cs with
    | [] => none
    | '"' :: rest => some ([], rest)
    | '\\' :: 'u' :: rest => do
      let (c, rest) ← readEscapedChar rest
      let (more, rest) ← readText fuel rest
      return (c :: more, rest)
    | '\\' :: c :: rest => do
      let c ← escape? c
      let (more, rest) ← readText fuel rest
      return (c :: more, rest)
    | c :: rest =>
      if Text.isSpacing c then
        let run := cs.takeWhile Text.isSpacing
        let rest := cs.dropWhile Text.isSpacing
        if Text.endsLine run && isDivider rest then none
        else do
          let (more, rest) ← readText fuel rest
          return (Text.foldSpacing run ++ more, rest)
      else do
        let (more, rest) ← readText fuel rest
        return (c :: more, rest)

def isNumberChar (c : Char) : Bool := c.isDigit || ['+', '-', '.', 'e', 'E'].contains c

/-- A word, if it has a digit or is one of the three names. -/
def ofWord? (word : List Char) : Option Document :=
  let s := String.ofList word
  if word.any Char.isDigit || ["null", "true", "false"].contains s then some (.word s) else none

def Mark.ofChar? : Char → Option Mark
  | '\x7b' => some openBrace
  | '\x7d' => some closeBrace
  | '[' => some openBracket
  | ']' => some closeBracket
  | ':' => some colon
  | ',' => some comma
  | _ => none

/-- The marks of a text, for at most `fuel` characters. -/
def Mark.scan : Nat → List Char → Option (List Mark)
  | 0, _ => none
  | fuel + 1, cs =>
    match cs with
    | [] => some []
    | c :: rest =>
      if Text.isSpacing c then scan fuel rest
      else if c = '"' then do
        let (s, rest) ← readText cs.length rest
        let more ← scan fuel rest
        return atom (.text (String.ofList s)) :: more
      else if isNumberChar c then do
        let d ← ofWord? (c :: rest.takeWhile isNumberChar)
        let more ← scan fuel (rest.dropWhile isNumberChar)
        return atom d :: more
      else if c.isAlpha then do
        let d ← ofWord? (c :: rest.takeWhile Char.isAlpha)
        let more ← scan fuel (rest.dropWhile Char.isAlpha)
        return atom d :: more
      else do
        let m ← ofChar? c
        let more ← scan fuel rest
        return m :: more

/-! ## Documents -/

mutual

/-- Reads a document, for at most `fuel` steps down. -/
def read : Nat → List Mark → Option (Document × List Mark)
  | 0, _ => none
  | fuel + 1, marks =>
    match marks with
    | .atom d :: rest => some (d, rest)
    | .openBracket :: .closeBracket :: rest => some (.list [], rest)
    | .openBracket :: rest => do
      let (items, rest) ← readItems fuel rest
      return (.list items, rest)
    | .openBrace :: .closeBrace :: rest => some (.record [], rest)
    | .openBrace :: rest => do
      let (fields, rest) ← readFields fuel rest
      return (.record fields, rest)
    | _ => none

/-- The items of a list, at least one. -/
def readItems : Nat → List Mark → Option (List Document × List Mark)
  | 0, _ => none
  | fuel + 1, marks => do
    let (d, rest) ← read fuel marks
    match rest with
    | .comma :: rest =>
      let (more, rest) ← readItems fuel rest
      return (d :: more, rest)
    | .closeBracket :: rest => return ([d], rest)
    | _ => none

/-- The fields of a record, at least one. -/
def readFields : Nat → List Mark → Option (List (String × Document) × List Mark)
  | 0, _ => none
  | fuel + 1, marks =>
    match marks with
    | .atom (.text key) :: .colon :: rest => do
      let (d, rest) ← read fuel rest
      match rest with
      | .comma :: rest =>
        let (more, rest) ← readFields fuel rest
        return ((key, d) :: more, rest)
      | .closeBrace :: rest => return ([(key, d)], rest)
      | _ => none
    | _ => none

end

/-- The document that a text holds, behind a byte order mark if it starts with one.  Each step
down uses up a mark, so their number bounds the depth. -/
def parse? (s : String) : Option Document := do
  let cs := if s.toList.head? = some '\uFEFF' then s.toList.tail else s.toList
  guard (cs.all isAllowed)
  let marks ← Mark.scan (cs.length + 1) cs
  match ← read (2 * marks.length + 1) marks with
  | (d, []) => return d
  | _ => none

end Document

end MapScript
