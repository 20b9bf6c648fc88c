import MapScript.Text.Blank

/-!
# Comments

A comment starts at the first `--` of a line that is not between quotes and runs to its end.  A
backslash takes the character after it out of consideration, between quotes or not.
-/

namespace MapScript.Token

/-- What stands before the comment, if there is one; `quote` is the quote that is open. -/
def beforeComment? (quote : Option Char) : List Char → Option (List Char)
  | [] => none
  | ['\\'] => none
  | '\\' :: c :: rest => (beforeComment? quote rest).map ('\\' :: c :: ·)
  | c :: rest =>
    match quote with
    | some q => (beforeComment? (if c = q then none else some q) rest).map (c :: ·)
    | none =>
      if c = '"' || c = '\x27' then (beforeComment? (some c) rest).map (c :: ·)
      else if c = '-' && rest.head? == some '-' then some []
      else (beforeComment? none rest).map (c :: ·)

/-- A line without its comment and the blanks before that; one without a comment stays as it is. -/
def withoutComment (line : List Char) : List Char :=
  match beforeComment? none line with
  | some kept => Text.trimEnd kept
  | none => line

end MapScript.Token
