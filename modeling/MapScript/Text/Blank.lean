/-!
# Blank characters, words and lines

A text is read as a list of characters.  Blank means the `White_Space` property, not ASCII
blanks alone.

* `words cs`: the maximal runs of characters that are not blank.
* `lines cs`: the pieces between line feeds.  One carriage return directly before a line feed
  belongs to the break, and a final line feed opens no empty line.
-/

namespace MapScript.Text

/-! ## Blanks -/

/-- The characters with the `White_Space` property. -/
def isBlank (c : Char) : Bool :=
  let n := c.toNat
  (0x09 ≤ n && n ≤ 0x0D) || n == 0x20 || n == 0x85 || n == 0xA0 || n == 0x1680
    || (0x2000 ≤ n && n ≤ 0x200A) || n == 0x2028 || n == 0x2029 || n == 0x202F || n == 0x205F
    || n == 0x3000

/-- Drops the blanks at the end. -/
def trimEnd : List Char → List Char
  | [] => []
  | c :: rest =>
    match trimEnd rest with
    | [] => if isBlank c then [] else [c]
    | kept => c :: kept

/-! ## Words -/

/-- The maximal runs of characters that are not blank. -/
def words : List Char → List (List Char)
  | [] => []
  | c :: rest =>
    if isBlank c then words rest
    else
      match rest, words rest with
      | [], _ => [[c]]
      | d :: _, more =>
        if isBlank d then [c] :: more
        else
          match more with
          | [] => [[c]]
          | w :: ws => (c :: w) :: ws

/-! ## Lines -/

/-- The pieces between line feeds. -/
def lines : List Char → List (List Char)
  | [] => []
  | '\n' :: rest => [] :: lines rest
  | '\r' :: '\n' :: rest => [] :: lines rest
  | c :: rest =>
    match lines rest with
    | [] => [[c]]
    | l :: ls => (c :: l) :: ls

@[simp] theorem lines_nil : lines [] = [] := rfl

end MapScript.Text
