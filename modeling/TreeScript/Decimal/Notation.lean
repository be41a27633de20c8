import TreeScript.Decimal.Shortest

/-!
# How the digits of a double are laid out

A `Notation` holds the decisions of one written form: which way a tie goes, for which powers of
ten the digits are written positionally, and whether an integral value carries `.0`.  Two of them
are used: `Notation.plain`, which never has an exponent, and `Notation.json`.
-/

namespace TreeScript

/-- The decisions of one written form of doubles. -/
structure Notation where
  tie : Tie
  /-- The powers of ten of the leading digit at which no exponent is written. -/
  isPositional : Int → Bool
  /-- Whether an integral value is written with `.0`. -/
  hasPoint : Bool

namespace Notation

/-- Digits without an exponent: `250`, `0.1`, `-0`. -/
def plain : Notation := ⟨.up, fun _ => true, false⟩

/-- Digits as in JSON: `250.0`, `0.1`, and with an exponent outside `1e-5 ≤ |x| < 1e16`. -/
def json : Notation := ⟨.even, fun e => decide (-5 ≤ e ∧ e < 16), true⟩

/-! ## 1. Digits and point -/

/-- A list of zeros. -/
def zeros (n : Nat) : List Char := List.replicate n '0'

/-- Writes `digits · 10^exponent` without an exponent. -/
def positional (hasPoint : Bool) (digits : List Char) (exponent : Int) : List Char :=
  if 0 ≤ exponent then
    digits ++ zeros exponent.toNat ++ (if hasPoint then ['.', '0'] else [])
  else
    let places := (-exponent).toNat
    if places < digits.length then
      digits.take (digits.length - places) ++ '.' :: digits.drop (digits.length - places)
    else ['0', '.'] ++ zeros (places - digits.length) ++ digits

/-- Writes the digits with the point after the first, and the power of ten of that digit. -/
def scientific (digits : List Char) (leading : Int) : List Char :=
  let mantissa := match digits with
    | first :: second :: rest => first :: '.' :: second :: rest
    | short => short
  mantissa ++ 'e' :: (if leading < 0 then '-' else '+') :: Decimal.digitsOfNat leading.natAbs

/-- Writes `coefficient · 10^exponent`. -/
def writeDecimal (form : Notation) (coefficient : Nat) (exponent : Int) : List Char :=
  let digits := Decimal.digitsOfNat coefficient
  let leading := exponent + digits.length - 1
  if form.isPositional leading then positional form.hasPoint digits exponent
  else scientific digits leading

/-! ## 2. Doubles -/

/-- Writes a magnitude with the fewest digits that read back. -/
def writeMagnitude (form : Notation) (significand scale : Nat) : List Char :=
  if significand = 0 then positional form.hasPoint ['0'] 0
  else
    let digits := Decimal.shortest form.tie significand scale
    form.writeDecimal digits.1 digits.2

/-- **The text of a double.** -/
def write (form : Notation) (x : Float) : List Char :=
  match Binary64.ofFloat x with
  | .nan => ['N', 'a', 'N']
  | .infinite negative => (if negative then ['-'] else []) ++ ['i', 'n', 'f']
  | .finite negative significand scale =>
    (if negative then ['-'] else []) ++ form.writeMagnitude significand scale

end Notation

end TreeScript
