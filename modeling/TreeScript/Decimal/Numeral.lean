import TreeScript.Decimal.Basic

/-!
# Numerals

A numeral is an optional sign and then either digits with at most one point among them (and at
least one digit) and an optional power of ten, or one of the words `inf`, `infinity` and `nan` in
any case.  `Numeral.read?` reads a whole text and rounds it to the nearest double.
-/

namespace TreeScript

namespace Numeral

/-- Splits off the digits at the front. -/
def spanDigits (cs : List Char) : List Char × List Char :=
  (cs.takeWhile Char.isDigit, cs.dropWhile Char.isDigit)

/-- Splits off a sign: whether it is a minus, and what follows. -/
def splitSign : List Char → Bool × List Char
  | '-' :: rest => (true, rest)
  | '+' :: rest => (false, rest)
  | rest => (false, rest)

/-- The power of ten after the digits: nothing, or `e`, a sign and digits up to the end. -/
def readExponent? : List Char → Option Int
  | [] => some 0
  | c :: rest =>
    if c = 'e' ∨ c = 'E' then
      let signed := splitSign rest
      let spanned := spanDigits signed.2
      if spanned.1.isEmpty || !spanned.2.isEmpty then none
      else
        let power : Int := Decimal.natOfDigits spanned.1
        some (if signed.1 then -power else power)
    else none

/-- Digits, an optional point with digits, and an optional power of ten. -/
def readDecimal? (negative : Bool) (cs : List Char) : Option Decimal :=
  let whole := spanDigits cs
  let fraction := match whole.2 with
    | '.' :: rest => spanDigits rest
    | rest => ([], rest)
  if whole.1.isEmpty && fraction.1.isEmpty then none
  else
    (readExponent? fraction.2).map fun power =>
      ⟨negative, Decimal.natOfDigits (whole.1 ++ fraction.1), power - fraction.1.length⟩

/-- The words for what is not finite, in any case. -/
def readWord? (negative : Bool) (cs : List Char) : Option Binary64 :=
  let word := cs.map Char.toLower
  if word = ['i', 'n', 'f'] ∨ word = ['i', 'n', 'f', 'i', 'n', 'i', 't', 'y'] then
    some (.infinite negative)
  else if word = ['n', 'a', 'n'] then some .nan
  else none

/-- **The double that a numeral spells**, if the text is one. -/
def read? (cs : List Char) : Option Float :=
  let signed := splitSign cs
  match readDecimal? signed.1 signed.2 with
  | some d => some d.toFloat
  | none => (readWord? signed.1 signed.2).map Binary64.toFloat

end Numeral

end TreeScript
