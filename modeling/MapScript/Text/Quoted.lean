import MapScript.Numeral
import MapScript.Text.Printable

/-!
# Quoted text

How a message shows a character or a text that came from outside: between quotes, with a
backslash before a backslash and before the quote in use, short names for the four common
controls, and the code point of every other character that is not printable.
-/

namespace MapScript.Text

/-- One character as it stands between two `quote`s. -/
def escaped (quote c : Char) : List Char :=
  if c = '\x00' then ['\\', '0']
  else if c = '\t' then ['\\', 't']
  else if c = '\r' then ['\\', 'r']
  else if c = '\n' then ['\\', 'n']
  else if c = '\\' || c = quote then ['\\', c]
  else if isPrintable c then [c]
  else ['\\', 'u', '\x7b'] ++ Nat.toDigits 16 c.toNat ++ ['\x7d']

def quotedChar (c : Char) : String :=
  String.ofList ('\x27' :: escaped '\x27' c ++ ['\x27'])

def quoted (s : String) : String :=
  String.ofList ('"' :: s.toList.flatMap (escaped '"') ++ ['"'])

end MapScript.Text
