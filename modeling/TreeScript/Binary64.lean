/-
# Doubles taken apart

A finite double is a sign, a **significand** `m` below `2^53` and a **scale** `p`, and its
magnitude is `m · 2^p` in units of `2^-1074`, the smallest double.  In these units every
magnitude is a natural number, so that the exact operations below are arithmetic on `Nat`:
no rational number and no negative exponent occurs.

The scale is chosen so that `m ≥ 2^52` unless `p = 0`.  Then the bits of the magnitude are the
number `p · 2^52 + m`, for normal and subnormal doubles alike, and rounding up to the next
power of two carries into the exponent by itself.

* `ofFloat` and `toFloat` go between a `Float` and its parts;
* `nearest` rounds a quotient to the nearest double, a tie to the even significand;
* `truncated` drops the fraction, and `remainder` is the exact remainder of the truncated
  quotient.
-/

namespace TreeScript

/-- The parts of a double. -/
inductive Binary64 where
  | nan
  | infinite (negative : Bool)
  | finite (negative : Bool) (significand scale : Nat)
  deriving DecidableEq, Repr

namespace Binary64

/-! ## 1. Bits -/

/-- One, in units of the smallest double. -/
def one : Nat := Nat.pow 2 1074

/-- The bits of infinity, and the bound of the bits of all finite magnitudes. -/
def infinityBits : Nat := 2047 * Nat.pow 2 52

/-- The bits of a magnitude; what lies above all doubles is infinite. -/
def magnitudeBits (significand scale : Nat) : Nat :=
  min (scale * Nat.pow 2 52 + significand) infinityBits

/-- The magnitude with the given bits. -/
def ofMagnitudeBits (negative : Bool) (bits : Nat) : Binary64 :=
  let exponent := bits / Nat.pow 2 52
  let fraction := bits % Nat.pow 2 52
  if exponent = 0 then .finite negative fraction 0
  else if exponent < 2047 then .finite negative (Nat.pow 2 52 + fraction) (exponent - 1)
  else if fraction = 0 then .infinite negative
  else .nan

/-- Takes a double apart. -/
def ofFloat (x : Float) : Binary64 :=
  let bits := x.toBits.toNat
  ofMagnitudeBits (decide (Nat.pow 2 63 ≤ bits)) (bits % Nat.pow 2 63)

/-- The sign bit as a number. -/
def signBits (negative : Bool) : Nat := if negative then Nat.pow 2 63 else 0

/-- Puts a double together. -/
def toFloat : Binary64 → Float
  | .nan => Float.ofBits (UInt64.ofNat (infinityBits + Nat.pow 2 51))
  | .infinite negative => Float.ofBits (UInt64.ofNat (signBits negative + infinityBits))
  | .finite negative significand scale =>
    Float.ofBits (UInt64.ofNat (signBits negative + magnitudeBits significand scale))

/-! ## 2. Rounding -/

/-- A quotient rounded to the nearest integer, a tie to the even one. -/
def roundQuotient (num den : Nat) : Nat :=
  let quotient := num / den
  let twice := 2 * (num % den)
  if twice < den ∨ (twice = den ∧ quotient % 2 = 0) then quotient else quotient + 1

/-- The scale at which a magnitude with this integer part has 53 significant bits. -/
def scaleOf (whole : Nat) : Nat := Nat.log2 whole - 52

/-- **The double nearest `num / den`** units; a tie goes to the even significand, and what is too
large is infinite. -/
def nearest (negative : Bool) (num den : Nat) : Binary64 :=
  let scale := scaleOf (num / den)
  ofMagnitudeBits negative (magnitudeBits (roundQuotient num (den * Nat.pow 2 scale)) scale)

/-! ## 3. Exact operations -/

/-- The magnitude in units of the smallest double. -/
def units (significand scale : Nat) : Nat := significand * Nat.pow 2 scale

/-- The integer that a finite double truncates to; NaN and the infinities have none. -/
def truncated : Binary64 → Option Int
  | .finite negative significand scale =>
    let whole : Int := (units significand scale / one : Nat)
    some (if negative then -whole else whole)
  | _ => none

/-- Whether a double is finite and has no fraction. -/
def isIntegral : Binary64 → Bool
  | .finite _ significand scale => units significand scale % one = 0
  | _ => false

/-- The remainder of the quotient truncated toward zero.  It has the dividend's sign and is
exact; a zero divisor or an infinite dividend has none. -/
def remainder : Binary64 → Binary64 → Binary64
  | .finite negative m p, .finite _ m' p' =>
    if m' = 0 then .nan else nearest negative (units m p % units m' p') 1
  | .finite negative m p, .infinite _ => .finite negative m p
  | _, _ => .nan

end Binary64

end TreeScript
