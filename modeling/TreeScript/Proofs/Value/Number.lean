import Mathlib
import TreeScript.Proofs.Binary64.Sum
import TreeScript.Proofs.Decimal.Digits
import TreeScript.Proofs.Decimal.Shortest
import TreeScript.Value.Text

/-!
# The text of a number

The text of a number is a numeral, and the numeral spells the number (`read?_numberText`), so that
numbers with the same text are equal (`equal_of_numberText_eq`).  An integral number below the bound
is written as an integer, and it is one exactly; any other is written with its shortest digits,
which are laid out with zeros up to the point, with the point among them, or with zeros after the
point.  However it is done, what is read stands for the number that was written.  Only the sign of a
negative zero is lost.
-/

namespace TreeScript

variable {negative : Bool} {whole fraction cs : List Char} {m p : Nat} {x : Float}

/-! ## 1. The parts of a numeral -/

namespace Numeral

theorem spanDigits_whole (hwhole : ∀ c ∈ whole, c.isDigit = true) :
    spanDigits whole = (whole, []) := by
  have hspan : spanDigits (whole ++ []) = (whole, []) := spanDigits_append hwhole (by simp)
  rwa [List.append_nil] at hspan

/-- Digits only. -/
theorem readDecimal?_whole (negative : Bool) (hwhole : ∀ c ∈ whole, c.isDigit = true)
    (hne : whole ≠ []) :
    readDecimal? negative whole = some ⟨negative, Decimal.natOfDigits whole, 0⟩ := by
  have hspan := spanDigits_whole hwhole
  have hempty : whole.isEmpty = false := by simpa using hne
  simp [readDecimal?, hspan, hempty, readExponent?]

/-- A point and digits. -/
theorem readDecimal?_point (hwhole : ∀ c ∈ whole, c.isDigit = true) (hne : whole ≠ [])
    (hfraction : ∀ c ∈ fraction, c.isDigit = true) :
    readDecimal? negative (whole ++ '.' :: fraction) =
      some ⟨negative, Decimal.natOfDigits (whole ++ fraction), -fraction.length⟩ := by
  have hspan : spanDigits (whole ++ '.' :: fraction) = (whole, '.' :: fraction) :=
    spanDigits_append hwhole fun c hc => by cases hc; rfl
  have hspan' := spanDigits_whole hfraction
  have hempty : whole.isEmpty = false := by simpa using hne
  simp [readDecimal?, hspan, hspan', hempty, readExponent?]

/-- A decimal does not begin with a sign, so that a sign before it is its own. -/
theorem read?_of_readDecimal? {d : Decimal} (h : readDecimal? negative cs = some d) :
    read? ((if negative then ['-'] else []) ++ cs) = some d.toFloat := by
  cases negative with
  | true => simp [read?, splitSign, h]
  | false =>
    have hsign : splitSign cs = (false, cs) := by
      unfold splitSign
      split
      · simp [readDecimal?, spanDigits, Char.isDigit] at h
      · simp [readDecimal?, spanDigits, Char.isDigit] at h
      · rfl
    simp [read?, hsign, h]

/-! ## 2. The three layouts -/

section Layouts

variable {ds : List Char} {e : Int}

/-- With zeros up to the point. -/
theorem readDecimal?_zeros (negative : Bool) (hds : ∀ c ∈ ds, c.isDigit = true) (hne : ds ≠ [])
    (k : Nat) :
    readDecimal? negative (ds ++ Notation.zeros k) =
      some ⟨negative, Decimal.natOfDigits ds * 10 ^ k, 0⟩ := by
  rw [← Decimal.natOfDigits_append_zeros]
  refine readDecimal?_whole negative (fun c hc => ?_) (by simp [hne])
  rcases List.mem_append.mp hc with hc | hc
  · exact hds c hc
  · exact Decimal.isDigit_of_mem_zeros hc

/-- With digits on both sides of the point. -/
theorem readDecimal?_pointed (negative : Bool) {a : Nat}
    (h : Decimal.IsPointed a e whole fraction) :
    readDecimal? negative (whole ++ '.' :: fraction) = some ⟨negative, a, e⟩ := by
  rw [readDecimal?_point h.whole_digits h.whole_ne_nil h.fraction_digits, h.value, h.power]

/-- **However the digits of a number are laid out**, what is read stands for the same number. -/
theorem readDecimal?_positional (negative : Bool) (a : Nat) (e : Int) :
    ∃ d : Decimal, d.negative = negative ∧ d.units = Decimal.units ⟨negative, a, e⟩ ∧
      readDecimal? negative (Notation.positional false (Decimal.digitsOfNat a) e) = some d := by
  rcases Int.lt_or_le e 0 with he | he
  · obtain ⟨whole, fraction, hpointed, hlayout⟩ := Decimal.exists_isPointed false a he
    rw [hlayout]
    exact ⟨_, rfl, rfl, readDecimal?_pointed negative hpointed⟩
  · obtain ⟨k, rfl⟩ := Int.eq_ofNat_of_zero_le he
    have hread := readDecimal?_zeros negative (fun _ => Decimal.isDigit_of_mem_digitsOfNat)
      (Decimal.digitsOfNat_ne_nil a) k
    have hunits := Decimal.units_scale negative negative a k k
    rw [Decimal.natOfDigits_digitsOfNat] at hread
    rw [sub_self] at hunits
    refine ⟨_, rfl, hunits, ?_⟩
    unfold Notation.positional
    rw [if_pos he]
    simpa using hread

end Layouts

/-! ## 3. Doubles and integers -/

/-- The digits of a magnitude stand for a decimal that is rounded to it. -/
theorem readDecimal?_writeMagnitude (negative : Bool) (hparts : Binary64.IsParts m p) :
    ∃ d : Decimal, d.toBinary64 = .finite negative m p ∧
      readDecimal? negative (Notation.plain.writeMagnitude m p) = some d := by
  unfold Notation.writeMagnitude
  split
  · rename_i hm
    subst hm
    obtain rfl : p = 0 := hparts.normal.resolve_right (by omega)
    have hzero : ∀ c ∈ Notation.zeros 1, c.isDigit = true :=
      fun _ => Decimal.isDigit_of_mem_zeros
    exact ⟨⟨negative, 0, 0⟩, rfl, readDecimal?_zeros negative hzero (List.cons_ne_nil _ _) 0⟩
  · rename_i hm
    obtain ⟨d, hsign, hunits, hread⟩ := readDecimal?_positional negative
      (Decimal.shortest .up m p).1 (Decimal.shortest .up m p).2
    rw [← hsign] at hunits
    have hrounded := Decimal.toBinary64_of_units .up hparts (Nat.pos_of_ne_zero hm) hunits
    rw [hsign] at hrounded
    exact ⟨d, hrounded, hread⟩

/-- **A finite double is read as it was written.** -/
theorem read?_write (h : Binary64.ofFloat x = .finite negative m p) :
    read? (Notation.plain.write x) = some x := by
  obtain ⟨d, hd, hread⟩ := readDecimal?_writeMagnitude negative (Binary64.isParts_of_ofFloat h)
  unfold Notation.write
  rw [h]
  refine (read?_of_readDecimal? hread).trans ?_
  rw [Decimal.toFloat, hd, Binary64.toFloat_of_ofFloat h]

/-- An infinity is read as it was written. -/
theorem read?_write_infinite (h : Binary64.ofFloat x = .infinite negative) :
    read? (Notation.plain.write x) = some (Binary64.infinite negative).toFloat := by
  unfold Notation.write
  rw [h]
  cases negative <;> rfl

/-- An integer is read as it was written. -/
theorem read?_integerText (i : Int) :
    read? (Value.integerText i) = some (Decimal.ofInt i).toFloat := by
  have hread := readDecimal?_whole (decide (i < 0))
    (fun _ => Decimal.isDigit_of_mem_digitsOfNat) (Decimal.digitsOfNat_ne_nil i.natAbs)
  rw [Decimal.natOfDigits_digitsOfNat] at hread
  simpa [Value.integerText, Decimal.ofInt] using read?_of_readDecimal? hread

end Numeral

namespace Decimal

variable {c : Nat}

/-- An integral magnitude is the integer that it truncates to, and nothing is rounded. -/
theorem toBinary64_integral (hparts : Binary64.IsParts m p) (hc : 0 < c)
    (hunits : Binary64.units m p = c * Binary64.one) :
    (⟨negative, c, 0⟩ : Decimal).toBinary64 = .finite negative m p := by
  have hquotient : (⟨negative, c, 0⟩ : Decimal).quotient = (Binary64.units m p, 1) := by
    rw [hunits]
    exact congrArg (fun n => (n * Binary64.one, 1)) (Nat.mul_one c)
  have hsmall : ¬ (0 + (Nat.log2 c + 1 : Nat) : Int) < -330 := by omega
  unfold toBinary64
  rw [hquotient, if_neg hc.ne', if_neg (by simp), if_neg hsmall]
  exact Binary64.nearest_units hparts negative

theorem ofInt_signed (negative : Bool) (hc : 0 < c) :
    ofInt (Binary64.signed negative c) = ⟨negative, c, 0⟩ := by
  unfold ofInt Binary64.signed
  cases negative <;> simp [hc]

/-- **An integral double is equal to the integer that it is**; for an integer there is one zero
only. -/
theorem equal_ofInt (h : Binary64.ofFloat x = .finite negative m p)
    (hunits : Binary64.units m p = c * Binary64.one) :
    (Binary64.ofFloat x).Equal
      (Binary64.ofFloat (ofInt (Binary64.signed negative c)).toFloat) := by
  rcases Nat.eq_zero_or_pos c with rfl | hc
  · have hsigned : Binary64.signed negative (0 : Nat) = 0 := by cases negative <;> rfl
    have hzero : Binary64.ofFloat (ofInt 0).toFloat = .finite false 0 0 :=
      Binary64.ofFloat_toFloat ⟨by decide, .inl rfl, by decide⟩
    rw [hsigned, h, hzero, Binary64.Equal, hunits, Nat.zero_mul, hsigned]
    simp [Binary64.signed, Binary64.units]
  · have hparts := Binary64.isParts_of_ofFloat h
    rw [ofInt_signed negative hc, toFloat, toBinary64_integral hparts hc hunits,
      Binary64.toFloat_of_ofFloat h, Binary64.equal_self_iff]
    simp [h]

end Decimal

/-! ## 4. The text of a number -/

namespace Value

theorem numberText_of_truncated_eq_none (h : (Binary64.ofFloat x).truncated = none) :
    numberText x = Notation.plain.write x := by
  unfold numberText
  dsimp only
  rw [h]

theorem numberText_nan (h : Binary64.ofFloat x = .nan) : numberText x = ['N', 'a', 'N'] := by
  rw [numberText_of_truncated_eq_none (by rw [h]; rfl), Notation.write, h]

/-- A finite number is written as an integer if it is one and less than the bound. -/
theorem numberText_eq_ite (h : Binary64.ofFloat x = .finite negative m p) :
    numberText x =
      if Binary64.units m p % Binary64.one = 0 ∧
          Binary64.units m p < integerBound * Binary64.one then
        integerText (Binary64.signed negative (Binary64.units m p / Binary64.one : Nat))
      else Notation.plain.write x := by
  have htruncated : (Binary64.finite negative m p).truncated =
      some (Binary64.signed negative (Binary64.units m p / Binary64.one : Nat)) := rfl
  have hintegral : (Binary64.finite negative m p).isIntegral =
      decide (Binary64.units m p % Binary64.one = 0) := rfl
  unfold numberText
  dsimp only
  rw [h, htruncated]
  dsimp only
  rw [Binary64.natAbs_signed, hintegral]
  simp only [Bool.and_eq_true, decide_eq_true_eq, Nat.div_lt_iff_lt_mul Binary64.one_pos]

/-- A finite number is written with its shortest digits, or as the integer that it is. -/
theorem numberText_finite (h : Binary64.ofFloat x = .finite negative m p) :
    numberText x = Notation.plain.write x ∨
      ∃ c : Nat, Binary64.units m p = c * Binary64.one ∧
        numberText x = integerText (Binary64.signed negative c) := by
  rw [numberText_eq_ite h]
  split
  · rename_i hcond
    exact Or.inr ⟨_, (Nat.div_mul_cancel (Nat.dvd_of_mod_eq_zero hcond.1)).symm, rfl⟩
  · exact Or.inl rfl

/-- **The text of a number is read as the number**, up to the sign of zero. -/
theorem read?_numberText (h : Binary64.ofFloat x ≠ .nan) :
    ∃ y, Numeral.read? (numberText x) = some y ∧
      (Binary64.ofFloat x).Equal (Binary64.ofFloat y) := by
  cases hx : Binary64.ofFloat x with
  | nan => exact absurd hx h
  | infinite negative =>
    refine ⟨(Binary64.infinite negative).toFloat, ?_, ?_⟩
    · rw [numberText_of_truncated_eq_none (by rw [hx]; rfl), Numeral.read?_write_infinite hx]
    · rw [Binary64.ofFloat_infinite]
      exact rfl
  | finite negative m p =>
    rw [← hx]
    rcases numberText_finite hx with htext | ⟨c, hunits, htext⟩ <;> rw [htext]
    · exact ⟨x, Numeral.read?_write hx, Binary64.equal_self_iff.mpr h⟩
    · exact ⟨_, Numeral.read?_integerText _, Decimal.equal_ofInt hx hunits⟩

/-- What NaN is written as is read as NaN. -/
theorem read?_numberText_nan (h : Binary64.ofFloat x = .nan) :
    Numeral.read? (numberText x) = some Binary64.nan.toFloat := by
  rw [numberText_nan h]
  rfl

theorem numberText_ne_nil (x : Float) : numberText x ≠ [] := by
  intro hnil
  by_cases hx : Binary64.ofFloat x = .nan
  · rw [numberText_nan hx] at hnil
    cases hnil
  · obtain ⟨y, hread, -⟩ := read?_numberText hx
    rw [hnil] at hread
    cases hread

/-- **Numbers with the same text are equal.** -/
theorem equal_of_numberText_eq {y : Float} (hx : Binary64.ofFloat x ≠ .nan)
    (h : numberText x = numberText y) : (Binary64.ofFloat x).Equal (Binary64.ofFloat y) := by
  obtain ⟨x', hread, hequal⟩ := read?_numberText hx
  rw [h] at hread
  by_cases hy : Binary64.ofFloat y = .nan
  · rw [read?_numberText_nan hy] at hread
    cases hread
    have hnan : Binary64.ofFloat Binary64.nan.toFloat = .nan := rfl
    rw [hnan] at hequal
    exact absurd rfl (Binary64.equal_self_iff.mp (hequal.symm.trans hequal))
  · obtain ⟨y', hread', hequal'⟩ := read?_numberText hy
    obtain rfl : x' = y' := Option.some.inj (hread.symm.trans hread')
    exact hequal.trans hequal'.symm

/-! ## 5. The characters of a number -/

/-- Whether a character can stand in the text of a finite number. -/
def isFigure (c : Char) : Bool := c.isDigit || c == '.' || c == '-'

theorem isFigure_of_isDigit {c : Char} (h : c.isDigit = true) : isFigure c = true := by
  simp [isFigure, h]

theorem isFigure_positional {ds : List Char} {e : Int} (hds : ∀ c ∈ ds, c.isDigit = true) :
    ∀ c ∈ Notation.positional false ds e, isFigure c = true := by
  have hzeros : ∀ k, ∀ c ∈ Notation.zeros k, isFigure c = true :=
    fun _ _ hc => isFigure_of_isDigit (Decimal.isDigit_of_mem_zeros hc)
  have hfigures : ∀ c ∈ ds, isFigure c = true := fun c hc => isFigure_of_isDigit (hds c hc)
  have hpoint : isFigure '.' = true := by decide
  have hzero : isFigure '0' = true := by decide
  intro c hc
  unfold Notation.positional at hc
  split at hc
  · simp only [Bool.false_eq_true, if_false, List.append_nil, List.mem_append] at hc
    rcases hc with hc | hc
    · exact hfigures c hc
    · exact hzeros _ c hc
  · dsimp only at hc
    split at hc
    · rw [List.mem_append, List.mem_cons] at hc
      rcases hc with hc | rfl | hc
      · exact hfigures c (List.mem_of_mem_take hc)
      · exact hpoint
      · exact hfigures c (List.mem_of_mem_drop hc)
    · simp only [List.mem_append, List.mem_cons, List.not_mem_nil, or_false] at hc
      rcases hc with ((rfl | rfl) | hc) | hc
      · exact hzero
      · exact hpoint
      · exact hzeros _ c hc
      · exact hfigures c hc

theorem isFigure_signed (negative : Bool) (hcs : ∀ c ∈ cs, isFigure c = true) :
    ∀ c ∈ (if negative then ['-'] else []) ++ cs, isFigure c = true := by
  have hminus : isFigure '-' = true := by decide
  cases negative with
  | true => exact List.forall_mem_cons.mpr ⟨hminus, hcs⟩
  | false => exact hcs

theorem isFigure_write (h : Binary64.ofFloat x = .finite negative m p) :
    ∀ c ∈ Notation.plain.write x, isFigure c = true := by
  unfold Notation.write
  rw [h]
  refine isFigure_signed negative ?_
  unfold Notation.writeMagnitude
  split
  · exact isFigure_positional fun _ => Decimal.isDigit_of_mem_zeros (k := 1)
  · exact isFigure_positional fun _ => Decimal.isDigit_of_mem_digitsOfNat

theorem isFigure_integerText (i : Int) : ∀ c ∈ integerText i, isFigure c = true := by
  have hdigits : ∀ c ∈ Decimal.digitsOfNat i.natAbs, isFigure c = true := by
    intro c hc
    exact isFigure_of_isDigit (Decimal.isDigit_of_mem_digitsOfNat hc)
  simpa [integerText] using isFigure_signed (decide (i < 0)) hdigits

/-- **A number is written in figures**, or as one of three words. -/
theorem numberText_characters (x : Float) :
    (∀ c ∈ numberText x, isFigure c = true) ∨
      numberText x ∈ [['N', 'a', 'N'], ['i', 'n', 'f'], ['-', 'i', 'n', 'f']] := by
  cases hx : Binary64.ofFloat x with
  | nan =>
    refine Or.inr ?_
    rw [numberText_nan hx]
    decide
  | infinite negative =>
    refine Or.inr ?_
    rw [numberText_of_truncated_eq_none (by rw [hx]; rfl), Notation.write, hx]
    cases negative <;> decide
  | finite negative m p =>
    refine Or.inl ?_
    rcases numberText_finite hx with htext | ⟨c, -, htext⟩ <;> rw [htext]
    · exact isFigure_write hx
    · exact isFigure_integerText _

end Value

end TreeScript
