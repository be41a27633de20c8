import TreeScript.Binary64

/-!
# Decimal numbers and the doubles nearest to them

A decimal is a sign, a coefficient and a power of ten.  `toFloat` rounds it to the nearest
double, a tie to the even significand.  A power of ten that no double can reach is answered
without computing it, so that the exponent of a numeral may have any number of digits.
-/

namespace TreeScript

/-- The number `± coefficient · 10 ^ exponent`. -/
structure Decimal where
  negative : Bool
  coefficient : Nat
  exponent : Int
  deriving DecidableEq, Repr

namespace Decimal

/-- The natural number `n`. -/
def ofNat (n : Nat) : Decimal := ⟨false, n, 0⟩

/-- The integer `i`. -/
def ofInt (i : Int) : Decimal := ⟨decide (i < 0), i.natAbs, 0⟩

/-- The magnitude as a quotient, in units of the smallest double. -/
def quotient (d : Decimal) : Nat × Nat :=
  if 0 ≤ d.exponent then (d.coefficient * Nat.pow 10 d.exponent.toNat * Binary64.one, 1)
  else (d.coefficient * Binary64.one, Nat.pow 10 (-d.exponent).toNat)

/-- **The double nearest a decimal.**  Above `10^310` every double is exceeded, and a number
below `10^-330` rounds to zero. -/
def toBinary64 (d : Decimal) : Binary64 :=
  if d.coefficient = 0 then .finite d.negative 0 0
  else if 310 < d.exponent then .infinite d.negative
  else if d.exponent + (Nat.log2 d.coefficient + 1 : Nat) < -330 then .finite d.negative 0 0
  else Binary64.nearest d.negative d.quotient.1 d.quotient.2

/-- The double nearest a decimal. -/
def toFloat (d : Decimal) : Float := d.toBinary64.toFloat

/-- The natural number that a list of decimal digits spells. -/
def natOfDigits (digits : List Char) : Nat := Nat.ofDigitChars 10 digits 0

/-- The decimal digits of a natural number. -/
def digitsOfNat (n : Nat) : List Char := Nat.toDigits 10 n

theorem natOfDigits_digitsOfNat (n : Nat) : natOfDigits (digitsOfNat n) = n :=
  Nat.ofDigitChars_toDigits (by decide) (by decide)

end Decimal

end TreeScript
