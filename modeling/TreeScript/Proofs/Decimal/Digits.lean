import Mathlib
import TreeScript.Decimal.Notation
import TreeScript.Decimal.Numeral

/-!
# Decimal digits

The digits of a number are digits, they do not begin with a zero unless the number is zero, and
zeros before or after them do to the number what they should.  No other digits without a zero in
front have this number: `digitsOfNat_natOfDigits`.  A reader that takes the digits off the front of a
text finds them again if no digit follows.
-/

namespace TreeScript

namespace Decimal

/-! ## 1. The digits of a number -/

theorem isDigit_of_mem_digitsOfNat {n : Nat} {c : Char} (h : c ∈ digitsOfNat n) :
    c.isDigit = true :=
  Nat.isDigit_of_mem_toDigits (by decide) (by decide) h

theorem digitsOfNat_ne_nil (n : Nat) : digitsOfNat n ≠ [] := Nat.toDigits_ne_nil

/-- The digits of a positive number do not begin with a zero. -/
theorem head?_digitsOfNat {n : Nat} (h : 0 < n) : (digitsOfNat n).head? ≠ some '0' := by
  induction n using Nat.strong_induction_on with
  | _ n ih =>
    unfold digitsOfNat
    rcases Nat.lt_or_ge n 10 with hlt | hge
    · have hdigit : ∀ d < 10, 0 < d → [Nat.digitChar d].head? ≠ some '0' := by decide
      rw [Nat.toDigits_of_lt_base hlt]
      exact hdigit n hlt h
    · rw [Nat.toDigits_of_base_le (by decide) hge,
        List.head?_append_of_ne_nil _ Nat.toDigits_ne_nil]
      exact ih (n / 10) (by omega) (by omega)

/-! ## 2. Zeros -/

theorem isDigit_of_mem_zeros {k : Nat} {c : Char} (h : c ∈ Notation.zeros k) :
    c.isDigit = true := by
  obtain rfl := List.eq_of_mem_replicate h
  rfl

theorem natOfDigits_zeros_append (k : Nat) (ds : List Char) :
    natOfDigits (Notation.zeros k ++ ds) = natOfDigits ds := by
  unfold natOfDigits Notation.zeros
  rw [Nat.ofDigitChars_append, Nat.ofDigitChars_replicate_zero, Nat.mul_zero]

theorem natOfDigits_append_zeros (k : Nat) (ds : List Char) :
    natOfDigits (ds ++ Notation.zeros k) = natOfDigits ds * 10 ^ k := by
  unfold natOfDigits Notation.zeros
  rw [Nat.ofDigitChars_append, Nat.ofDigitChars_replicate_zero, Nat.mul_comm]

/-! ## 3. The number of some digits -/

section Digits

variable {ds : List Char} {a : Nat}

theorem natOfDigits_append (ds ds' : List Char) :
    natOfDigits (ds ++ ds') = natOfDigits ds * 10 ^ ds'.length + natOfDigits ds' := by
  unfold natOfDigits
  rw [Nat.ofDigitChars_append, Nat.ofDigitChars_eq_ofDigitChars_zero, Nat.mul_comm]

/-- One digit. -/
theorem exists_digit {c : Char} (h : c.isDigit = true) :
    ∃ k < 10, natOfDigits [c] = k ∧ digitsOfNat k = [c] := by
  have hcodes : ∀ k < 10, (Nat.digitChar k).toNat = 48 + k := by decide
  have hrange : 48 ≤ c.toNat ∧ c.toNat ≤ 57 := by
    simpa [Char.isDigit, UInt32.le_iff_toNat_le] using h
  obtain ⟨k, hk⟩ : ∃ k, c.toNat = 48 + k := ⟨c.toNat - 48, by omega⟩
  have hlt : k < 10 := by omega
  obtain rfl : c = Nat.digitChar k := Char.toNat_inj.mp (hk.trans (hcodes k hlt).symm)
  refine ⟨k, hlt, ?_, Nat.toDigits_of_lt_base hlt⟩
  unfold natOfDigits
  rw [Nat.ofDigitChars_cons_digitChar_of_lt_ten hlt, Nat.ofDigitChars_nil, Nat.mul_zero,
    Nat.zero_add]

theorem natOfDigits_lt (hds : ∀ c ∈ ds, c.isDigit = true) : natOfDigits ds < 10 ^ ds.length := by
  induction ds with
  | nil => exact Nat.one_pos
  | cons c ds ih =>
    obtain ⟨hc, hds⟩ := List.forall_mem_cons.mp hds
    obtain ⟨k, hk, hdigit, -⟩ := exists_digit hc
    have hlt := ih hds
    have hsplit := natOfDigits_append [c] ds
    have hmul : k * 10 ^ ds.length ≤ 9 * 10 ^ ds.length := Nat.mul_le_mul_right _ (by omega)
    rw [List.singleton_append, hdigit] at hsplit
    rw [hsplit, List.length_cons, Nat.pow_succ]
    omega

/-- **Digits without a zero in front are the digits of their number.** -/
theorem digitsOfNat_natOfDigits (hds : ∀ c ∈ ds, c.isDigit = true) (hne : ds ≠ [])
    (hlead : ds.head? = some '0' → ds = ['0']) : digitsOfNat (natOfDigits ds) = ds := by
  induction ds using List.reverseRecOn with
  | nil => exact absurd rfl hne
  | append_singleton front c ih =>
    obtain ⟨hfront, hc⟩ := List.forall_mem_append.mp hds
    obtain ⟨k, hk, hdigit, hlast⟩ := exists_digit (hc c (List.mem_singleton_self c))
    by_cases hnil : front = []
    · subst hnil
      rw [List.nil_append, hdigit, hlast]
    · have hhead : front.head? ≠ some '0' := by
        intro hzero
        have hwhole := hlead (by rw [List.head?_append_of_ne_nil _ hnil, hzero])
        simp [List.append_eq_singleton_iff, hnil] at hwhole
      have hdigits := ih hfront hnil (fun hzero => absurd hzero hhead)
      have hpos : 0 < natOfDigits front := by
        by_contra hzero
        rw [Nat.eq_zero_of_not_pos hzero] at hdigits
        rw [← hdigits] at hhead
        exact hhead rfl
      rw [natOfDigits_append, hdigit, List.length_singleton, Nat.pow_one, Nat.mul_comm]
      refine (Nat.toDigits_append_toDigits (by decide) hpos hk).symm.trans ?_
      exact congrArg₂ _ hdigits hlast

/-- The digits of a number and the zeros of a power of ten. -/
theorem digitsOfNat_mul_pow (ha : 0 < a) (k : Nat) :
    digitsOfNat (a * 10 ^ k) = digitsOfNat a ++ Notation.zeros k := by
  have hvalue := natOfDigits_append_zeros k (digitsOfNat a)
  rw [natOfDigits_digitsOfNat] at hvalue
  rw [← hvalue]
  refine digitsOfNat_natOfDigits (fun c hc => ?_) (by simp [digitsOfNat_ne_nil]) fun hzero => ?_
  · rcases List.mem_append.mp hc with hc | hc
    · exact isDigit_of_mem_digitsOfNat hc
    · exact isDigit_of_mem_zeros hc
  · rw [List.head?_append_of_ne_nil _ (digitsOfNat_ne_nil a)] at hzero
    exact absurd hzero (head?_digitsOfNat ha)

/-- Digits are determined by their number and how many they are. -/
theorem eq_of_natOfDigits_eq {ds' : List Char} (hds : ∀ c ∈ ds, c.isDigit = true)
    (hds' : ∀ c ∈ ds', c.isDigit = true) (hlength : ds.length = ds'.length)
    (h : natOfDigits ds = natOfDigits ds') : ds = ds' := by
  -- With a one in front both are the digits of a number.
  have hfront {ds : List Char} (hds : ∀ c ∈ ds, c.isDigit = true) :
      digitsOfNat (natOfDigits (['1'] ++ ds)) = ['1'] ++ ds :=
    digitsOfNat_natOfDigits (List.forall_mem_cons.mpr ⟨rfl, hds⟩) (List.cons_ne_nil _ _) nofun
  have hvalue : natOfDigits (['1'] ++ ds) = natOfDigits (['1'] ++ ds') := by
    rw [natOfDigits_append, natOfDigits_append, hlength, h]
  rw [← List.append_cancel_left_eq ['1'], ← hfront hds, ← hfront hds', hvalue]

end Digits

/-! ## 4. Digits on both sides of a point -/

/-- Digits before and after a point that spell `a · 10^e`: some on both sides, and no zero before
others. -/
structure IsPointed (a : Nat) (e : Int) (whole fraction : List Char) : Prop where
  whole_digits : ∀ c ∈ whole, c.isDigit = true
  whole_ne_nil : whole ≠ []
  leading : whole.head? = some '0' → whole = ['0']
  fraction_digits : ∀ c ∈ fraction, c.isDigit = true
  fraction_ne_nil : fraction ≠ []
  value : natOfDigits (whole ++ fraction) = a
  power : -(fraction.length : Int) = e

variable {a : Nat} {e : Int} {whole whole' fraction fraction' : List Char}

/-- With the point among the digits. -/
theorem isPointed_inside (he : e < 0) (hplaces : (-e).toNat < (digitsOfNat a).length) :
    IsPointed a e ((digitsOfNat a).take ((digitsOfNat a).length - (-e).toNat))
      ((digitsOfNat a).drop ((digitsOfNat a).length - (-e).toNat)) := by
  have hdigits : ∀ c ∈ digitsOfNat a, c.isDigit = true := fun _ => isDigit_of_mem_digitsOfNat
  have ha : 0 < a := by
    by_contra hzero
    obtain rfl : a = 0 := by omega
    have hlength : (digitsOfNat 0).length = 1 := rfl
    omega
  refine ⟨fun c hc => hdigits c (List.mem_of_mem_take hc), ?_, ?_,
    fun c hc => hdigits c (List.mem_of_mem_drop hc), ?_, ?_, ?_⟩
  · refine List.ne_nil_of_length_pos ?_
    rw [List.length_take]
    omega
  · intro hzero
    rw [List.head?_take, if_neg (by omega)] at hzero
    exact absurd hzero (head?_digitsOfNat ha)
  · refine List.ne_nil_of_length_pos ?_
    rw [List.length_drop]
    omega
  · rw [List.take_append_drop, natOfDigits_digitsOfNat]
  · rw [List.length_drop]
    omega

/-- With zeros after the point. -/
theorem isPointed_below (he : e < 0) (hplaces : ¬ (-e).toNat < (digitsOfNat a).length) :
    IsPointed a e ['0']
      (Notation.zeros ((-e).toNat - (digitsOfNat a).length) ++ digitsOfNat a) := by
  refine ⟨fun c hc => isDigit_of_mem_zeros (k := 1) hc, List.cons_ne_nil _ _, fun _ => rfl, ?_, ?_,
    ?_, ?_⟩
  · intro c hc
    rcases List.mem_append.mp hc with hc | hc
    · exact isDigit_of_mem_zeros hc
    · exact isDigit_of_mem_digitsOfNat hc
  · exact List.append_ne_nil_of_right_ne_nil _ (digitsOfNat_ne_nil a)
  · have hzeros : ['0'] ++ (Notation.zeros ((-e).toNat - (digitsOfNat a).length) ++ digitsOfNat a) =
        Notation.zeros ((-e).toNat - (digitsOfNat a).length + 1) ++ digitsOfNat a := rfl
    rw [hzeros, natOfDigits_zeros_append, natOfDigits_digitsOfNat]
  · unfold Notation.zeros
    rw [List.length_append, List.length_replicate]
    omega

/-- **A negative power of ten is written with a point.** -/
theorem exists_isPointed (hasPoint : Bool) (a : Nat) (he : e < 0) :
    ∃ whole fraction, IsPointed a e whole fraction ∧
      Notation.positional hasPoint (digitsOfNat a) e = whole ++ '.' :: fraction := by
  unfold Notation.positional
  rw [if_neg (by omega)]
  dsimp only
  split
  · rename_i hplaces
    exact ⟨_, _, isPointed_inside he hplaces, rfl⟩
  · rename_i hplaces
    exact ⟨_, _, isPointed_below he hplaces, by simp⟩

/-- **The digits on both sides of a point are determined** by the decimal that they spell. -/
theorem IsPointed.unique (h : IsPointed a e whole fraction) (h' : IsPointed a e whole' fraction') :
    whole = whole' ∧ fraction = fraction' := by
  have hlength : fraction.length = fraction'.length := by
    have hpower := h.power.trans h'.power.symm
    omega
  have hvalue := h.value.trans h'.value.symm
  rw [natOfDigits_append, natOfDigits_append, hlength] at hvalue
  have hlt := natOfDigits_lt h.fraction_digits
  have hlt' := natOfDigits_lt h'.fraction_digits
  rw [hlength] at hlt
  have hfraction : natOfDigits fraction = natOfDigits fraction' := by
    have hmod := congrArg (· % 10 ^ fraction'.length) hvalue
    simpa [Nat.mod_eq_of_lt hlt, Nat.mod_eq_of_lt hlt'] using hmod
  have hwhole : natOfDigits whole = natOfDigits whole' := by
    rw [hfraction] at hvalue
    exact Nat.eq_of_mul_eq_mul_right (Nat.pow_pos (by decide)) (Nat.add_right_cancel hvalue)
  refine ⟨?_, eq_of_natOfDigits_eq h.fraction_digits h'.fraction_digits hlength hfraction⟩
  rw [← digitsOfNat_natOfDigits h.whole_digits h.whole_ne_nil h.leading, hwhole,
    digitsOfNat_natOfDigits h'.whole_digits h'.whole_ne_nil h'.leading]

end Decimal

namespace Numeral

/-! ## 5. Digits at the front of a text -/

theorem spanDigits_append {ds rest : List Char} (hds : ∀ c ∈ ds, c.isDigit = true)
    (hrest : ∀ c ∈ rest.head?, c.isDigit = false) : spanDigits (ds ++ rest) = (ds, rest) := by
  unfold spanDigits
  rw [List.takeWhile_append_of_pos hds, List.dropWhile_append_of_pos hds]
  cases rest with
  | nil => simp
  | cons c rest =>
    have hc := hrest c rfl
    simp [hc]

/-- The sign of a power of ten is read as it was written. -/
theorem splitSign_write (e : Int) (cs : List Char) :
    splitSign ((if e < 0 then '-' else '+') :: cs) = (decide (e < 0), cs) := by
  by_cases he : e < 0
  · simp [he, splitSign]
  · simp [he, splitSign]

theorem signed_natAbs (e : Int) :
    (if decide (e < 0) then -(e.natAbs : Int) else e.natAbs) = e := by
  simp only [decide_eq_true_eq]
  split <;> omega

end Numeral

end TreeScript
