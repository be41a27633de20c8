import TreeScript.Value.Basic
import TreeScript.Decimal.Notation
import TreeScript.Text.Quoted

/-!
# The text of a value

This is what `print` writes.  An integral number below `10^15` is written as an integer, and so
negative zero as `0`; other numbers are written in the plain notation.  A text stands for itself,
but is quoted inside a sequence or a mapping, as are the keys of a mapping.
-/

namespace TreeScript.Value

/-- Numbers of at least this magnitude are not written as integers. -/
def integerBound : Nat := Nat.pow 10 15

/-- The text of an integer. -/
def integerText (i : Int) : List Char :=
  (if i < 0 then ['-'] else []) ++ Decimal.digitsOfNat i.natAbs

/-- The text of a number. -/
def numberText (x : Float) : List Char :=
  let parts := Binary64.ofFloat x
  match parts.truncated with
  | some i =>
    if parts.isIntegral && i.natAbs < integerBound then integerText i
    else Notation.plain.write x
  | none => Notation.plain.write x

mutual

/-- The text of a value; a text is quoted if it is nested. -/
def written (isNested : Bool) : Value → List Char
  | .number x => numberText x
  | .text s => if isNested then Text.quote s.toList else s.toList
  | .boolean true => ['t', 'r', 'u', 'e']
  | .boolean false => ['f', 'a', 'l', 's', 'e']
  | .sequence items => '[' :: writtenItems items
  | .mapping entries => '\x7b' :: writtenEntries entries
  | .absence => ['n', 'o', 'n', 'e']

/-- The items of a sequence and its closing bracket. -/
def writtenItems : List Value → List Char
  | [] => [']']
  | [item] => written true item ++ [']']
  | item :: rest => written true item ++ ',' :: ' ' :: writtenItems rest

/-- The entries of a mapping and its closing brace. -/
def writtenEntries : List (String × Value) → List Char
  | [] => ['\x7d']
  | [(key, value)] => Text.quote key.toList ++ ':' :: ' ' :: (written true value ++ ['\x7d'])
  | (key, value) :: rest =>
    Text.quote key.toList ++ ':' :: ' ' :: (written true value ++ ',' :: ' ' :: writtenEntries rest)

end

/-- The text of a value, as characters. -/
def chars (v : Value) : List Char := written false v

/-- **The text of a value.** -/
def toText (v : Value) : String := String.ofList v.chars

end TreeScript.Value
