import TreeScript.Decimal.Basic

/-!
# The fewest digits that read back

Every double is the nearest double to an **interval** of reals around it; the ends belong to the
interval when the significand is even.  The shortest decimal of the double is the multiple of the
largest power of ten that lies in the interval; of two such multiples it is the nearer one, and
an exact tie goes as the `Tie` says.

`shortest` walks down the powers of ten from one above the magnitude and takes the first that has
a multiple in the interval.  It arrives, because the interval of every double is wider than
`10^-324`, the last power it tries.
-/

namespace TreeScript

/-- Which of two equally near decimals is taken. -/
inductive Tie where
  | up
  | even
  deriving DecidableEq, Repr

namespace Decimal

/-! ## 1. The interval, in quarters of the double's last place -/

/-- The lower end.  Below a power of two the doubles lie twice as close. -/
def lowerEnd (significand scale : Nat) : Nat :=
  if significand = Nat.pow 2 52 ∧ 0 < scale then 4 * significand - 1 else 4 * significand - 2

/-- The upper end. -/
def upperEnd (significand : Nat) : Nat := 4 * significand + 2

/-- One quarter of the unit of the smallest double, inverted. -/
def quarter : Nat := 4 * Binary64.one

/-- What one step of the grid of multiples of `10^exponent` measures, as a quotient in quarter
units: the multiple `a` is the number `a · (grid exponent).1 / (grid exponent).2`. -/
def grid (exponent : Int) : Nat × Nat :=
  if 0 ≤ exponent then (Nat.pow 10 exponent.toNat * quarter, 1)
  else (quarter, Nat.pow 10 (-exponent).toNat)

/-- Whether the multiple `a` of `10^exponent` lies in the interval. -/
def reads (significand scale : Nat) (exponent : Int) (a : Nat) : Bool :=
  let step := grid exponent
  let place := Nat.pow 2 scale * step.2
  let low := lowerEnd significand scale * place
  let high := upperEnd significand * place
  if significand % 2 = 0 then decide (low ≤ a * step.1 ∧ a * step.1 ≤ high)
  else decide (low < a * step.1 ∧ a * step.1 < high)

/-- The largest multiple of `10^exponent` that is not above the double. -/
def below (significand scale : Nat) (exponent : Int) : Nat :=
  4 * significand * (Nat.pow 2 scale * (grid exponent).2) / (grid exponent).1

/-- Whether the double is nearer to the multiple above `a` than to `a`, ties as told. -/
def nearerAbove (tie : Tie) (significand scale : Nat) (exponent : Int) (a : Nat) : Bool :=
  let step := grid exponent
  let twice := 2 * (4 * significand * (Nat.pow 2 scale * step.2))
  let middle := (2 * a + 1) * step.1
  match tie with
  | .up => decide (middle ≤ twice)
  | .even => decide (middle < twice ∨ (middle = twice ∧ a % 2 = 1))

/-- The nearest multiple of `10^exponent` in the interval, if there is one. -/
def onGrid? (tie : Tie) (significand scale : Nat) (exponent : Int) : Option Nat :=
  let a := below significand scale exponent
  match reads significand scale exponent a, reads significand scale exponent (a + 1) with
  | true, true => some (if nearerAbove tie significand scale exponent a then a + 1 else a)
  | true, false => some a
  | false, true => some (a + 1)
  | false, false => none

/-! ## 2. The search -/

/-- The least power of ten that is tried. -/
def lastExponent : Int := -324

/-- The first power of ten, from `lastExponent + steps` down, with a multiple in the interval. -/
def search (tie : Tie) (significand scale : Nat) : (steps : Nat) → Nat × Int
  | 0 => ((onGrid? tie significand scale lastExponent).getD 0, lastExponent)
  | steps + 1 =>
    match onGrid? tie significand scale (lastExponent + (steps + 1 : Nat)) with
    | some a => (a, lastExponent + (steps + 1 : Nat))
    | none => search tie significand scale steps

/-- How far above the last power of ten the search starts: above the magnitude. -/
def startSteps (significand scale : Nat) : Nat :=
  Nat.log2 (Binary64.units significand scale / Binary64.one) / 3 + 2 + 324

/-- **The shortest decimal of a positive magnitude**: coefficient and exponent. -/
def shortest (tie : Tie) (significand scale : Nat) : Nat × Int :=
  search tie significand scale (startSteps significand scale)

end Decimal

end TreeScript
