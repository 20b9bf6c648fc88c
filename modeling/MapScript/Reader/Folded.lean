/-!
# Folded spacing

How a quoted text that runs over several lines is read.  Spacing that holds no line break stands
for itself.  Otherwise the blanks go, and

* one break is a space,
* of several breaks the first goes and the others stay,
* but a separator of lines or paragraphs that comes first stays as well.

    foldSpacing "  " = "  "    foldSpacing " ␤ " = " "    foldSpacing "␤ ␤␤" = "␤␤"
-/

namespace MapScript.Text

/-- The characters that end a line of a quoted text: the line feed, the carriage return, the next
line control and the two separators. -/
def isLineBreak (c : Char) : Bool :=
  c = '\n' || c = '\r' || c = '\x85' || c = '\u2028' || c = '\u2029'

/-- Spaces, tabs and line breaks. -/
def isSpacing (c : Char) : Bool := c = ' ' || c = '\t' || isLineBreak c

/-- The line breaks in a run of spacing.  The two separators are kept, every other break counts as
a line feed, and a carriage return and a line feed together are one. -/
def lineBreaks : List Char → List Char
  | [] => []
  | '\r' :: '\n' :: rest => '\n' :: lineBreaks rest
  | c :: rest =>
    if c = '\u2028' || c = '\u2029' then c :: lineBreaks rest
    else if isLineBreak c then '\n' :: lineBreaks rest
    else lineBreaks rest

/-- What a run of spacing stands for. -/
def foldSpacing (run : List Char) : List Char :=
  match lineBreaks run with
  | [] => run
  | ['\n'] => [' ']
  | '\n' :: more => more
  | breaks => breaks

/-- Whether a run of spacing stops right behind a line break. -/
def endsLine (run : List Char) : Bool := run.getLast?.any isLineBreak

end MapScript.Text
