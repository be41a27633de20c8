import TreeScript.Text.Shown

/-!
# Quoted text

A text inside a collection, a mapping key and a text in an error message are written between
double quotes.  The quote and the backslash get a backslash, five control characters have a letter
of their own, and every other character that is not shown by itself is written as its code in
hexadecimal, `\u` and braces around it.
-/

namespace TreeScript.Text

/-- The code of a character in lower-case hexadecimal. -/
def hexCode (c : Char) : List Char := Nat.toDigits 16 c.toNat

/-- A character as it is written between quotes. -/
def escape (c : Char) : List Char :=
  if c = '\x00' then ['\\', '0']
  else if c = '\t' then ['\\', 't']
  else if c = '\r' then ['\\', 'r']
  else if c = '\n' then ['\\', 'n']
  else if c = '"' then ['\\', '"']
  else if c = '\\' then ['\\', '\\']
  else if isShown c then [c]
  else ['\\', 'u', '\x7b'] ++ hexCode c ++ ['\x7d']

/-- **A text between quotes.** -/
def quote (cs : List Char) : List Char := '"' :: (cs.flatMap escape ++ ['"'])

/-- A text between quotes. -/
def quoted (s : String) : String := String.ofList (quote s.toList)

end TreeScript.Text
