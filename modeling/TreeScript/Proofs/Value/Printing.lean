import TreeScript.Value.Operation
import TreeScript.Proofs.Position
import TreeScript.Proofs.Binary64.Difference
import TreeScript.Proofs.Decimal.Plain
import TreeScript.Proofs.Text.Lines
import TreeScript.Proofs.Value.Number

/-!
# Two ways to write a number

An integral number below the bound is written by way of an integer of 64 bits, any other in the plain
notation.  The two ways agree: an integer below the bound has fewer than 53 bits, so that it is its
own shortest decimal, and the plain notation writes it with the same digits.  What the integer does
not have is the sign of a negative zero, and there alone the texts differ (`numberText_eq_write`).

The text is defined with exact integers.  `doubleText` decides between the two ways with doubles, and
`numberText_eq_doubleText` shows that nothing is lost: whether a double has a fraction, whether it is
below the bound and what it becomes as an integer are all told exactly.
-/

namespace TreeScript

namespace Value

open Binary64

variable {x : Float} {negative : Bool} {m p : Nat}

/-! ## 1. Deciding with doubles -/

/-- A double as an integer of 64 bits: its fraction is dropped, what is out of range becomes the
nearest integer that is not, and NaN becomes zero. -/
def toInteger (x : Float) : Int :=
  match ofFloat x with
  | .nan => 0
  | .infinite negative => if negative then -2 ^ 63 else 2 ^ 63 - 1
  | b => max (-2 ^ 63) (min (2 ^ 63 - 1) (b.truncated.getD 0))

/-- **The text of a number, found with doubles.** -/
def doubleText (x : Float) : List Char :=
  if x.isFinite && x - integral x == 0 && decide (x.abs < 1e15) then integerText (toInteger x)
  else Notation.plain.write x

/-- A double has no fraction if nothing is left when it is taken off without its fraction. -/
theorem sub_integral_beq_zero (h : ofFloat x = .finite negative m p) :
    (x - integral x == 0) = (ofFloat x).isIntegral := by
  have hvalue : (ofFloat x).value? = some (signed negative (units m p)) := by
    rw [h]
    rfl
  have htruncated : (ofFloat x).truncated = some (signed negative (units m p / one : Nat)) := by
    rw [h]
    rfl
  have hsame := sub_beq_zero_iff hvalue (value_integral htruncated)
  rw [← signed_mul] at hsame
  rw [Bool.eq_iff_iff, hsame, h]
  unfold isIntegral signed
  have hsplit := Nat.div_add_mod' (units m p) one
  rw [decide_eq_true_eq]
  split <;> omega

/-- The bound of the magnitude, as a double. -/
theorem abs_lt_iff (h : ofFloat x = .finite negative m p) :
    x.abs < 1e15 ↔ units m p < integerBound * one := by
  have hbound : (ofFloat 1e15).value? = some ((integerBound * one : Nat) : Int) := by
    have hparts : ofFloat 1e15 = .finite false (8 * 10 ^ 15) 1071 := by decide +kernel
    rw [hparts]
    decide +kernel
  have habs : (ofFloat x.abs).value? = some (units m p : Int) := by
    rw [ofFloat_abs h]
    rfl
  rw [lt_iff habs hbound, Int.ofNat_lt]

/-- An integer within the bound is not changed by the range of 64 bits. -/
theorem toInteger_eq (h : ofFloat x = .finite negative m p)
    (hbound : units m p / one < integerBound) :
    toInteger x = signed negative (units m p / one : Nat) := by
  have hlimit : integerBound = 10 ^ 15 := rfl
  have htruncated : (Binary64.finite negative m p).truncated =
      some (signed negative (units m p / one : Nat)) := rfl
  unfold toInteger
  rw [h]
  dsimp only
  rw [htruncated, Option.getD_some]
  generalize units m p / one = c at *
  cases negative with
  | false =>
    simp only [signed, Bool.false_eq_true, if_false]
    omega
  | true =>
    simp only [signed, if_true]
    omega

/-- **The integers and the doubles decide alike** how a number is written. -/
theorem numberText_eq_doubleText (x : Float) : numberText x = doubleText x := by
  have hfinite := isFinite_eq x
  unfold doubleText
  cases hx : ofFloat x with
  | nan =>
    rw [hx] at hfinite
    rw [hfinite, numberText_of_truncated_eq_none (by rw [hx]; rfl)]
    rfl
  | infinite negative =>
    rw [hx] at hfinite
    rw [hfinite, numberText_of_truncated_eq_none (by rw [hx]; rfl)]
    rfl
  | finite negative m p =>
    have hfinite' : x.isFinite = true := by
      rw [hfinite, hx]
      rfl
    have hintegral : (ofFloat x).isIntegral = decide (units m p % one = 0) := by
      rw [hx]
      rfl
    rw [hfinite', sub_integral_beq_zero hx, hintegral, numberText_eq_ite hx]
    simp only [Bool.true_and, Bool.and_eq_true, decide_eq_true_eq, abs_lt_iff hx]
    split
    · rename_i hcond
      rw [toInteger_eq hx ((Nat.div_lt_iff_lt_mul Binary64.one_pos).mpr hcond.2)]
    · rfl

/-! ## 2. The integer and the plain notation -/

/-- An integer is written with its sign and its digits; zero has no sign. -/
theorem integerText_signed {c : Nat} (hc : negative = true → 0 < c) :
    integerText (signed negative c) = Notation.signText negative ++ Decimal.digitsOfNat c := by
  unfold integerText
  rw [natAbs_signed]
  cases negative with
  | false => rfl
  | true =>
    have hneg : signed true c < 0 := Int.neg_neg_of_pos (Int.natCast_pos.mpr (hc rfl))
    rw [if_pos hneg]
    rfl

theorem ofFloat_negZero : ofFloat (-0) = .finite true 0 0 := rfl

/-- Only a negative zero has a sign and no magnitude. -/
theorem pos_of_ne_negZero (h : ofFloat x = .finite negative m p) (hx : x ≠ -0)
    (hnegative : negative = true) : 0 < m := by
  subst hnegative
  by_contra hm
  obtain rfl : m = 0 := Nat.eq_zero_of_not_pos hm
  obtain rfl : p = 0 := (isParts_of_ofFloat h).normal.resolve_right (by omega)
  refine hx ?_
  rw [← toFloat_of_ofFloat h]
  exact toFloat_of_ofFloat ofFloat_negZero

/-- **An integral number below the bound has the text of an integer as its plain text.** -/
theorem isPlain_integerText (h : ofFloat x = .finite negative m p) (hx : x ≠ -0)
    (hintegral : units m p % one = 0) (hbound : units m p < integerBound * one) :
    Notation.IsPlain (ofFloat x) (integerText (signed negative (units m p / one : Nat))) := by
  have hunits : units m p = units m p / one * one :=
    (Nat.div_mul_cancel (Nat.dvd_of_mod_eq_zero hintegral)).symm
  have hsmall : units m p / one < 2 ^ 53 :=
    ((Nat.div_lt_iff_lt_mul Binary64.one_pos).mpr hbound).trans (by decide)
  obtain ⟨d, hshortest, hd⟩ :=
    Decimal.exists_isShortest_integer negative (isParts_of_ofFloat h) hunits hsmall
  have hpos (hnegative : negative = true) : 0 < units m p / one :=
    Nat.div_pos (Nat.le_of_dvd (units_pos (pos_of_ne_negZero h hx hnegative))
      (Nat.dvd_of_mod_eq_zero hintegral)) Binary64.one_pos
  rw [integerText_signed hpos, h]
  exact .integral (decide_eq_true hintegral) hshortest hd

/-- **A number other than negative zero is written in the plain notation**, by way of an integer or
not. -/
theorem numberText_eq_write (hx : x ≠ -0) : numberText x = Notation.plain.write x := by
  cases h : ofFloat x with
  | nan => exact numberText_of_truncated_eq_none (by rw [h]; rfl)
  | infinite negative => exact numberText_of_truncated_eq_none (by rw [h]; rfl)
  | finite negative m p =>
    rw [numberText_eq_ite h]
    split
    · rename_i hcond
      exact Notation.isPlain_iff_write.mp (isPlain_integerText h hx hcond.1 hcond.2)
    · rfl

theorem numberText_negZero : numberText (-0) = ['0'] := by
  rw [numberText_eq_ite ofFloat_negZero]
  decide +kernel

/-! ## 3. The text as a literal -/

/-- A figure is not white space. -/
theorem isBlank_eq_false_of_isFigure {c : Char} (h : isFigure c = true) : Text.isBlank c = false := by
  unfold isFigure at h
  rw [Bool.or_eq_true, Bool.or_eq_true, beq_iff_eq, beq_iff_eq] at h
  obtain (hdigit | rfl) | rfl := h
  · simp only [Char.isDigit, Bool.and_eq_true, decide_eq_true_eq, UInt32.le_iff_toNat_le] at hdigit
    obtain ⟨hlow, hhigh⟩ := hdigit
    have hlow' : 48 ≤ c.toNat := hlow
    have hhigh' : c.toNat ≤ 57 := hhigh
    simp [Text.isBlank, Text.blankRanges]
    omega
  · decide
  · decide

/-- There is no white space in the text of a number. -/
theorem trim_numberText (x : Float) : Text.trim (numberText x) = numberText x := by
  refine Text.trim_eq_self fun c hc => ?_
  rcases numberText_characters x with hfigures | hword
  · exact isBlank_eq_false_of_isFigure (hfigures c hc)
  · have hwords : ∀ word ∈ [['N', 'a', 'N'], ['i', 'n', 'f'], ['-', 'i', 'n', 'f']],
        word.any Text.isBlank = false := by decide
    exact Bool.eq_false_of_not_eq_true (List.any_eq_false.mp (hwords _ hword) c hc)

/-- The literal with the text of a number has the number that the text is read as. -/
theorem ofLiteral_toText {y : Float} (h : Numeral.read? (numberText x) = some y) :
    ofLiteral (.text (Value.number x).toText) .number = .ok (.number y) := by
  have htext : (Value.number x).toText.toList = numberText x := String.toList_ofList
  have hnumber : numberOfJson? (.text (Value.number x).toText) = some y := by
    unfold numberOfJson?
    dsimp only
    rw [htext, trim_numberText, h]
  unfold ofLiteral
  dsimp only
  rw [hnumber]

/-- **The literal with the text of a number is equal to the number**, and NaN for NaN. -/
theorem exists_ofLiteral_toText (x : Float) :
    ∃ y, ofLiteral (.text (Value.number x).toText) .number = .ok (.number y) ∧
      if x.isNaN then y.isNaN = true else (y == x) = true := by
  cases hnan : x.isNaN with
  | true =>
    have hread := read?_numberText_nan ((isNaN_iff x).mp hnan)
    exact ⟨_, ofLiteral_toText hread, (isNaN_iff _).mpr rfl⟩
  | false =>
    have hx : ofFloat x ≠ .nan := by
      rw [Ne, ← isNaN_iff, hnan]
      nofun
    obtain ⟨y, hread, hequal⟩ := read?_numberText hx
    exact ⟨y, ofLiteral_toText hread, (beq_iff y x).mpr hequal.symm⟩

/-- **The text of a number is its plain text, but for negative zero, which is written as `0`.**  The
plain text is the one that the plain notation writes; the decision between the two ways is that of
the doubles; and what is read back from the text is equal to the number. -/
theorem numberText_plain (x : Float) :
    numberText x = (if x = -0 then ['0'] else Notation.plain.write x) ∧
    (∀ cs, Notation.IsPlain (ofFloat x) cs ↔ cs = Notation.plain.write x) ∧
    numberText x = doubleText x ∧
    ∃ y, ofLiteral (.text (Value.number x).toText) .number = .ok (.number y) ∧
      if x.isNaN then y.isNaN = true else (y == x) = true := by
  refine ⟨?_, fun cs => Notation.isPlain_iff_write, numberText_eq_doubleText x,
    exists_ofLiteral_toText x⟩
  split
  · rename_i hx
    rw [hx]
    exact numberText_negZero
  · rename_i hx
    exact numberText_eq_write hx

/-- Negative zero is an exception. -/
example : Notation.plain.write (-0) = ['-', '0'] := by decide +kernel

end Value

end TreeScript
