import Mathlib
import TreeScript.Proofs.Decimal.Rounding

/-!
# The shortest decimal reads back

The search for the digits of a double ends at a decimal in the double's rounding interval
(`shortest_encloses`), because the last power of ten that it tries is finer than every interval; and
a decimal in the interval is rounded to the double (`toBinary64_eq`), because no cut-off for large
and small powers of ten is met there.  Together they are `toBinary64_of_units`.  No other decimal is
rounded to the double: `toBinary64_eq_iff`.

Both only depend on the number that a decimal stands for, `units`, and not on how many zeros its
coefficient ends with.
-/

namespace TreeScript.Decimal

open Binary64 (IsParts Encloses)

variable {m p : Nat}

/-! ## 1. The number that a decimal stands for -/

/-- The magnitude of a decimal in units of the smallest double. -/
def units (d : Decimal) : ℚ := d.coefficient * 10 ^ d.exponent * Binary64.one

theorem quotient_pos (d : Decimal) : 0 < d.quotient.2 := by
  unfold quotient
  split
  · exact Nat.one_pos
  · simp only [Nat.pow_eq]
    positivity

/-- The quotient that is rounded is the magnitude. -/
theorem quotient_eq_units (d : Decimal) : (d.quotient.1 / d.quotient.2 : ℚ) = d.units := by
  unfold quotient units
  simp only [Nat.pow_eq]
  generalize Binary64.one = one
  split
  · rename_i h
    obtain ⟨n, hn⟩ := Int.eq_ofNat_of_zero_le h
    rw [hn]
    simp
  · rename_i h
    obtain ⟨n, hn⟩ : ∃ n : Nat, d.exponent = -(n : Int) := ⟨(-d.exponent).toNat, by omega⟩
    rw [hn]
    simp only [neg_neg, Int.toNat_natCast, zpow_neg, zpow_natCast]
    push_cast
    ring

/-- Zeros at the end of the coefficient and the power of ten make up for each other. -/
theorem units_scale (negative negative' : Bool) (c k : Nat) (e : Int) :
    units ⟨negative, c * 10 ^ k, e - k⟩ = units ⟨negative', c, e⟩ := by
  unfold units
  dsimp only
  generalize Binary64.one = one
  rw [zpow_sub₀ (by norm_num), zpow_natCast]
  push_cast
  field_simp

/-! ## 2. A decimal in the interval -/

section Interval

variable {d : Decimal}

theorem coefficient_ne_zero (hm : 0 < m) (h : Encloses m p d.units) : d.coefficient ≠ 0 := by
  intro hzero
  have hlow := h.le.1
  have hend : 0 < lowerEnd m p * 2 ^ p := by
    have hle := Binary64.le_lowerEnd m p
    have hpos : 0 < lowerEnd m p := by omega
    positivity
  unfold units at hlow
  rw [hzero] at hlow
  simp only [Nat.cast_zero, zero_mul, mul_zero] at hlow
  exact absurd hlow (not_le.mpr (by exact_mod_cast hend))

/-- No double is as large as the powers of ten that are taken for infinite. -/
theorem exponent_le (hparts : IsParts m p) (hc : d.coefficient ≠ 0) (h : Encloses m p d.units) :
    d.exponent ≤ 310 := by
  by_contra hlarge
  have hhigh := h.le.2
  have hlt := hparts.lt
  have hend : upperEnd m * 2 ^ p < 4 * (10 ^ 311 * Binary64.one) := by
    have hbound : 2 ^ 55 * 2 ^ 2045 < 4 * (10 ^ 311 * Binary64.one) := by decide +kernel
    have hscale : 2 ^ p ≤ 2 ^ 2045 := Nat.pow_le_pow_right (by decide) hparts.le
    have hmul : upperEnd m * 2 ^ p ≤ 2 ^ 55 * 2 ^ 2045 :=
      Nat.mul_le_mul (by unfold upperEnd; omega) hscale
    exact Nat.lt_of_le_of_lt hmul hbound
  have hend' : ((upperEnd m * 2 ^ p : Nat) : ℚ) < 4 * (10 ^ 311 * Binary64.one) := by
    exact_mod_cast hend
  have hone : (1 : ℚ) ≤ d.coefficient := by exact_mod_cast Nat.one_le_iff_ne_zero.mpr hc
  have hpower : (10 : ℚ) ^ ((311 : Nat) : Int) ≤ 10 ^ d.exponent :=
    zpow_le_zpow_right₀ (by norm_num) (by omega)
  rw [zpow_natCast] at hpower
  have hunits : (10 : ℚ) ^ 311 * Binary64.one ≤ d.units := by
    unfold units
    refine mul_le_mul_of_nonneg_right ?_ (Nat.cast_nonneg _)
    calc (10 : ℚ) ^ 311 ≤ 10 ^ d.exponent := hpower
      _ = 1 * 10 ^ d.exponent := (one_mul _).symm
      _ ≤ d.coefficient * 10 ^ d.exponent := mul_le_mul_of_nonneg_right hone (by positivity)
  linarith

/-- No double but zero is as small as the decimals that are taken for zero. -/
theorem le_exponent (hm : 0 < m) (h : Encloses m p d.units) :
    -330 ≤ d.exponent + (Nat.log2 d.coefficient + 1 : Nat) := by
  by_contra hsmall
  have hlow := h.le.1
  have hend : 2 ≤ lowerEnd m p * 2 ^ p := by
    have hle := Binary64.le_lowerEnd m p
    have hpos : 0 < 2 ^ p := by positivity
    exact Nat.le_trans (by omega) (Nat.le_mul_of_pos_right _ hpos)
  have hend' : (2 : ℚ) ≤ (lowerEnd m p * 2 ^ p : Nat) := by exact_mod_cast hend
  have hdigits : (d.coefficient : ℚ) ≤ 10 ^ (Nat.log2 d.coefficient + 1 : Nat) := by
    have htwo : d.coefficient < 2 ^ (Nat.log2 d.coefficient + 1) := Nat.lt_log2_self
    have hten : 2 ^ (Nat.log2 d.coefficient + 1) ≤ 10 ^ (Nat.log2 d.coefficient + 1) :=
      Nat.pow_le_pow_left (by decide) _
    exact_mod_cast Nat.le_trans (Nat.le_of_lt htwo) hten
  have hunits : d.units ≤ (10 : ℚ) ^ (-((331 : Nat) : Int)) * Binary64.one := by
    unfold units
    refine mul_le_mul_of_nonneg_right ?_ (Nat.cast_nonneg _)
    calc (d.coefficient : ℚ) * 10 ^ d.exponent
        ≤ 10 ^ (Nat.log2 d.coefficient + 1 : Nat) * 10 ^ d.exponent :=
          mul_le_mul_of_nonneg_right hdigits (by positivity)
      _ = 10 ^ (d.exponent + (Nat.log2 d.coefficient + 1 : Nat)) := by
          rw [← zpow_natCast, ← zpow_add₀ (by norm_num), add_comm]
      _ ≤ 10 ^ (-((331 : Nat) : Int)) := zpow_le_zpow_right₀ (by norm_num) (by omega)
  have hbound : 4 * (Binary64.one : ℚ) < 2 * 10 ^ 331 := by
    have hnat : 4 * Binary64.one < 2 * 10 ^ 331 := by decide +kernel
    exact_mod_cast hnat
  have hcross : 4 * ((10 : ℚ) ^ (-((331 : Nat) : Int)) * Binary64.one) < 2 := by
    rw [zpow_neg, zpow_natCast, ← mul_assoc, mul_comm 4, mul_assoc, inv_mul_lt_iff₀ (by positivity)]
    linarith
  linarith

/-- **A decimal in the rounding interval of a double is rounded to the double.** -/
theorem toBinary64_eq (hparts : IsParts m p) (hm : 0 < m) (h : Encloses m p d.units) :
    d.toBinary64 = .finite d.negative m p := by
  have hc := coefficient_ne_zero hm h
  have hlarge := exponent_le hparts hc h
  have hsmall := le_exponent hm h
  unfold toBinary64
  rw [if_neg hc, if_neg (by omega), if_neg (by omega)]
  rw [← quotient_eq_units] at h
  exact Binary64.nearest_eq hparts (quotient_pos d) h

/-- What is rounded to a double that is not zero lies in its rounding interval. -/
theorem encloses_of_toBinary64 {negative : Bool} (hm : 0 < m)
    (h : d.toBinary64 = .finite negative m p) : d.negative = negative ∧ Encloses m p d.units := by
  unfold toBinary64 at h
  split at h
  · cases h
    omega
  · split at h
    · cases h
    · split at h
      · cases h
        omega
      · obtain ⟨hsign, -⟩ := Binary64.parts_of_nearest (quotient_pos d) h
        rw [← quotient_eq_units]
        exact ⟨hsign.symm, Binary64.encloses_of_nearest (quotient_pos d) h⟩

/-- **A decimal is rounded to a double that is not zero** if it has its sign and lies in its rounding
interval, and only then. -/
theorem toBinary64_eq_iff {negative : Bool} (hparts : IsParts m p) (hm : 0 < m) :
    d.toBinary64 = .finite negative m p ↔ d.negative = negative ∧ Encloses m p d.units := by
  refine ⟨encloses_of_toBinary64 hm, ?_⟩
  rintro ⟨rfl, h⟩
  exact toBinary64_eq hparts hm h

end Interval

/-! ## 3. The search -/

/-- The steps of a grid lead to the quotients of its multiples. -/
theorem grid_eq_quotient (negative : Bool) (a : Nat) (e : Int) :
    a * (grid e).1 = 4 * (quotient ⟨negative, a, e⟩).1 ∧
      (grid e).2 = (quotient ⟨negative, a, e⟩).2 := by
  unfold grid quotient quarter
  split <;> exact ⟨by ring, rfl⟩

/-- Whether a multiple of a power of ten is in the interval. -/
theorem reads_iff (negative : Bool) (e : Int) (a : Nat) :
    reads m p e a = true ↔ Encloses m p (units ⟨negative, a, e⟩) := by
  rw [← quotient_eq_units, Binary64.encloses_div_iff (quotient_pos _)]
  obtain ⟨hstep, hplace⟩ := grid_eq_quotient negative a e
  unfold reads
  simp only [Nat.pow_eq, hstep, hplace]
  split <;> simp

theorem reads_of_onGrid? {tie : Tie} {e : Int} {a : Nat} (h : onGrid? tie m p e = some a) :
    reads m p e a = true := by
  unfold onGrid? at h
  dsimp only at h
  split at h
  · rename_i hbelow habove
    cases h
    split
    · exact habove
    · exact hbelow
  · rename_i hbelow _
    cases h
    exact hbelow
  · rename_i _ habove
    cases h
    exact habove
  · cases h

/-- The multiples of the last power of ten are closer together than the ends of any interval. -/
theorem reads_below_last (hm : 0 < m) :
    reads m p lastExponent (below m p lastExponent) = true := by
  have hgrid : grid lastExponent = (quarter, 10 ^ 324) := rfl
  have hfine : quarter ≤ 2 ^ p * 10 ^ 324 := by
    have hbound : quarter ≤ 10 ^ 324 := by decide +kernel
    exact Nat.le_trans hbound (Nat.le_mul_of_pos_left _ (by positivity))
  have hpos : 0 < quarter := by decide +kernel
  unfold reads below
  rw [hgrid]
  simp only [Nat.pow_eq]
  generalize 2 ^ p * 10 ^ 324 = place at hfine
  have hsplit := Nat.div_add_mod' (4 * m * place) quarter
  have hmod := Nat.mod_lt (4 * m * place) hpos
  have hlow := Nat.mul_le_mul_right place (Binary64.lowerEnd_lt p hm)
  rw [Nat.succ_mul] at hlow
  have hhigh : upperEnd m * place = 4 * m * place + 2 * place := by
    unfold upperEnd
    ring
  split
  · rw [decide_eq_true_eq]
    omega
  · rw [decide_eq_true_eq]
    omega

/-- The search arrives. -/
theorem exists_onGrid?_last (tie : Tie) (hm : 0 < m) :
    ∃ a, onGrid? tie m p lastExponent = some a := by
  have hbelow := reads_below_last (p := p) hm
  unfold onGrid?
  dsimp only
  rw [hbelow]
  cases reads m p lastExponent (below m p lastExponent + 1)
  · exact ⟨_, rfl⟩
  · exact ⟨_, rfl⟩

/-- What the search arrives at is what is taken of its grid. -/
theorem onGrid?_search (tie : Tie) (hm : 0 < m) : ∀ steps : Nat,
    onGrid? tie m p (search tie m p steps).2 = some (search tie m p steps).1
  | 0 => by
    obtain ⟨a, ha⟩ := exists_onGrid?_last (p := p) tie hm
    unfold search
    rw [ha]
    rfl
  | steps + 1 => by
    unfold search
    split
    · rename_i a ha
      exact ha
    · exact onGrid?_search tie hm steps

/-- What the search arrives at is in the interval. -/
theorem reads_search (tie : Tie) (hm : 0 < m) (steps : Nat) :
    reads m p (search tie m p steps).2 (search tie m p steps).1 = true :=
  reads_of_onGrid? (onGrid?_search tie hm steps)

/-- **The shortest decimal of a double is in its rounding interval.** -/
theorem shortest_encloses (tie : Tie) (negative : Bool) (hm : 0 < m) :
    Encloses m p (units ⟨negative, (shortest tie m p).1, (shortest tie m p).2⟩) :=
  (reads_iff negative _ _).mp (reads_search tie hm _)

/-- The digits of a double that is not zero are not those of zero. -/
theorem shortest_pos (tie : Tie) (hm : 0 < m) : 0 < (shortest tie m p).1 :=
  Nat.pos_of_ne_zero (coefficient_ne_zero hm (shortest_encloses tie false hm))

/-- **What stands for the shortest decimal of a double is rounded to the double.** -/
theorem toBinary64_of_units {d : Decimal} (tie : Tie) (hparts : IsParts m p) (hm : 0 < m)
    (h : d.units = units ⟨d.negative, (shortest tie m p).1, (shortest tie m p).2⟩) :
    d.toBinary64 = .finite d.negative m p := by
  refine toBinary64_eq hparts hm ?_
  rw [h]
  exact shortest_encloses tie d.negative hm

end TreeScript.Decimal
