import TreeScript.Json.Basic

/-!
# Compact JSON text

A value is written without blanks.  In a text the quote, the backslash and the control characters
are escaped, the latter with a letter where there is one; every other character stands for itself.
-/

namespace TreeScript.Json

/-- The letter that escapes a control character. -/
def escapeLetter? (c : Char) : Option Char :=
  if c = '\n' then some 'n'
  else if c = '\r' then some 'r'
  else if c = '\t' then some 't'
  else if c = '\x08' then some 'b'
  else if c = '\x0c' then some 'f'
  else if c = '"' then some '"'
  else if c = '\\' then some '\\'
  else none

/-- A character as it is written between quotes. -/
def escapeChar (c : Char) : List Char :=
  match escapeLetter? c with
  | some letter => ['\\', letter]
  | none =>
    if c.toNat < 0x20 then
      ['\\', 'u', '0', '0', Nat.digitChar (c.toNat / 16), Nat.digitChar (c.toNat % 16)]
    else [c]

/-- A text between quotes. -/
def writeText (s : String) : List Char := '"' :: (s.toList.flatMap escapeChar ++ ['"'])

/-- A number without a point. -/
def writeInteger (i : Int) : List Char :=
  (if i < 0 then ['-'] else []) ++ Decimal.digitsOfNat i.natAbs

mutual

/-- **The compact text of a value.** -/
def write : Json → List Char
  | .null => ['n', 'u', 'l', 'l']
  | .boolean true => ['t', 'r', 'u', 'e']
  | .boolean false => ['f', 'a', 'l', 's', 'e']
  | .integer value => writeInteger value
  | .double value => Notation.json.write value
  | .text value => writeText value
  | .array items => '[' :: writeItems items
  | .object members => '\x7b' :: writeMembers members

/-- The items after an opening bracket. -/
def writeItems : List Json → List Char
  | [] => [']']
  | [item] => write item ++ [']']
  | item :: rest => write item ++ ',' :: writeItems rest

/-- The members after an opening brace. -/
def writeMembers : List (String × Json) → List Char
  | [] => ['\x7d']
  | [(name, value)] => writeText name ++ ':' :: (write value ++ ['\x7d'])
  | (name, value) :: rest => writeText name ++ ':' :: (write value ++ ',' :: writeMembers rest)

end

/-- The compact text of a value. -/
def toText (j : Json) : String := String.ofList j.write

end TreeScript.Json
