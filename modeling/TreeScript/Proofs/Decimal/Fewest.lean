import TreeScript.Proofs.Decimal.Grid

/-!
# The fewest digits

The decimal that the search arrives at is the **shortest** one of the double, `IsShortest`: of all
decimals that are read as the double it has the fewest digits, of those with as many digits it is
nearest to the double, and of two that are equally near it is the larger one.  A double has only one
such decimal (`IsShortest.unique`).

The search prefers large powers of ten, and not few digits.  It is the same because a decimal with a
smaller power of ten and no more digits leaves a power of ten between itself and what the search
found; that power is in the interval, and the search would have stopped there unless it is the first
digit of what was found.  Only then are there decimals of as many digits on two grids, and the
interval is as wide as a tenth of the double, which happens next to the smallest double only:
`gap_power_le`.
-/

namespace TreeScript.Decimal

open Binary64 (IsParts Encloses)

variable {negative : Bool} {m p : Nat} {e e' : Int} {d d' : Decimal}

/-! ## 1. Powers of ten -/

theorem power_pos (e : Int) : 0 < multiple 1 e := by
  have hone := cast_one_pos
  unfold multiple
  generalize (Binary64.one : ℚ) = one at *
  positivity

theorem power_le_power (h : e ≤ e') : multiple 1 e ≤ multiple 1 e' := by
  have hone := cast_one_pos
  have hpow : (10 : ℚ) ^ e ≤ 10 ^ e' := zpow_le_zpow_right₀ (by norm_num) h
  unfold multiple
  generalize (Binary64.one : ℚ) = one at *
  gcongr

/-- The next power of ten. -/
theorem power_succ (e : Int) : multiple 1 (e + 1) = 10 * multiple 1 e := by
  unfold multiple
  rw [zpow_add_one₀ (by norm_num)]
  ring

/-- A negative power of ten. -/
theorem power_neg_mul (k : Nat) : multiple 1 (-(k : Int)) * 10 ^ k = Binary64.one := by
  have hpos : (0 : ℚ) < 10 ^ k := by positivity
  unfold multiple
  rw [zpow_neg, zpow_natCast]
  generalize (Binary64.one : ℚ) = one
  field_simp
  ring

/-- `10^-323` is a little more than two of the smallest double. -/
theorem power_near_two :
    (2.02 : ℚ) < multiple 1 (-323) ∧ multiple 1 (-323) < (2.03 : ℚ) := by
  have hlow : 202 * 10 ^ 321 < Binary64.one := by decide +kernel
  have hhigh : Binary64.one < 203 * 10 ^ 321 := by decide +kernel
  have hlow' : (202 : ℚ) * 10 ^ 321 < Binary64.one := by exact_mod_cast hlow
  have hhigh' : (Binary64.one : ℚ) < 203 * 10 ^ 321 := by exact_mod_cast hhigh
  have hpower := power_neg_mul (2 + 321)
  rw [pow_add, ← mul_assoc] at hpower
  have hpos : (0 : ℚ) < 10 ^ 321 := by positivity
  rw [← hpower] at hlow' hhigh'
  have hlow'' := lt_of_mul_lt_mul_right hlow' hpos.le
  have hhigh'' := lt_of_mul_lt_mul_right hhigh' hpos.le
  have hexponent : -((2 + 321 : Nat) : Int) = -323 := rfl
  rw [hexponent] at hlow'' hhigh''
  constructor <;> linarith

/-- `10^-323` is the only power of ten between one and ten of the smallest double. -/
theorem exponent_eq_of_between (hlow : 1 < multiple 1 e) (hhigh : multiple 1 e < 10) :
    e = -323 := by
  obtain ⟨hnear, hnear'⟩ := power_near_two
  rcases lt_trichotomy e (-323) with hsmall | heq | hlarge
  · have hstep : multiple 1 e ≤ multiple 1 (-324) := power_le_power (by omega)
    have hnext := power_succ (-324)
    norm_num at hnext
    linarith
  · exact heq
  · have hstep : multiple 1 (-322) ≤ multiple 1 e := power_le_power (by omega)
    have hnext := power_succ (-323)
    norm_num at hnext
    linarith

/-! ## 2. How many digits a decimal has -/

/-- How many digits the coefficient of a decimal has. -/
def width (d : Decimal) : Nat := (digitsOfNat d.coefficient).length

theorem width_pos (d : Decimal) : 0 < d.width := Nat.length_toDigits_pos

theorem lt_ten_pow_width (d : Decimal) : d.coefficient < 10 ^ d.width :=
  (Nat.length_toDigits_le_iff (by decide) d.width_pos).mp le_rfl

theorem ten_pow_le_of_width (hd : d.coefficient ≠ 0) :
    10 ^ (d.width - 1) ≤ d.coefficient := by
  by_contra hlt
  rcases Nat.eq_zero_or_pos (d.width - 1) with hzero | hpos
  · rw [hzero] at hlt
    omega
  · have hle := (Nat.length_toDigits_le_iff (by decide) hpos).mpr (Nat.not_le.mp hlt)
    have hwidth : (Nat.toDigits 10 d.coefficient).length = d.width := rfl
    omega

/-- A power of ten of the grid is a power of ten. -/
theorem multiple_ten_pow (k : Nat) (e : Int) : multiple (10 ^ k) e = multiple 1 (e + k) := by
  have hscale := units_scale false false 1 k (e + k)
  rwa [Nat.one_mul, add_sub_cancel_right] at hscale

/-- The power of ten with as many digits as a decimal is not above it. -/
theorem power_le_units (hd : d.coefficient ≠ 0) :
    multiple 1 (d.exponent + (d.width - 1 : Nat)) ≤ d.units := by
  rw [← multiple_ten_pow]
  exact multiple_le_multiple (ten_pow_le_of_width hd) d.exponent

/-- A decimal is below the power of ten that has a digit more. -/
theorem units_lt_power_width (d : Decimal) : d.units < multiple 1 (d.exponent + d.width) := by
  have hlt : (d.coefficient : ℚ) < 10 ^ d.width := by exact_mod_cast lt_ten_pow_width d
  have hone := cast_one_pos
  unfold units multiple
  generalize (Binary64.one : ℚ) = one at *
  rw [zpow_add₀ (by norm_num), zpow_natCast, Nat.cast_one, one_mul, mul_comm (10 ^ d.exponent)]
  gcongr

/-- A decimal that ends below the first digit of another one is below the power of ten of that
digit. -/
theorem units_lt_power (d' : Decimal)
    (h : d'.exponent + d'.width ≤ d.exponent + (d.width - 1 : Nat)) :
    d'.units < multiple 1 (d.exponent + (d.width - 1 : Nat)) :=
  (units_lt_power_width d').trans_le (power_le_power h)

/-- A decimal of one digit with a smaller power of ten is by a tenth below that power. -/
theorem units_le_of_digit (hwidth : d.width = 1) (hfiner : d.exponent < e) :
    10 * d.units ≤ 9 * multiple 1 e := by
  have hdigit : d.coefficient ≤ 9 := by
    have hlt := lt_ten_pow_width d
    rw [hwidth] at hlt
    omega
  have hstep : multiple 1 (d.exponent + 1) ≤ multiple 1 e := power_le_power (by omega)
  have hpos := power_pos d.exponent
  have hunits : d.units ≤ 9 * multiple 1 d.exponent := by
    have hcast : (d.coefficient : ℚ) ≤ 9 := by exact_mod_cast hdigit
    rw [units_eq_mul]
    exact mul_le_mul_of_nonneg_right hcast hpos.le
  rw [power_succ] at hstep
  linarith

/-! ## 3. Wide intervals -/

/-- A double of which a power of ten and a number by a tenth below it are in the interval has one
digit, and its last place is the smallest one. -/
theorem lt_ten_of_wide (hparts : IsParts m p) {q r : ℚ} (hq : Encloses m p q) (hr : Encloses m p r)
    (hle : 10 * q ≤ 9 * r) : m < 10 ∧ p = 0 := by
  have hlow := hq.le.1
  have hhigh := hr.le.2
  have hwide : 10 * (lowerEnd m p * 2 ^ p) ≤ 9 * (upperEnd m * 2 ^ p) := by
    have hwide' : (10 * (lowerEnd m p * 2 ^ p : Nat) : ℚ) ≤ 9 * (upperEnd m * 2 ^ p : Nat) := by
      linarith
    exact_mod_cast hwide'
  have hend := Nat.mul_le_mul_right (2 ^ p) (Binary64.le_lowerEnd m p)
  have hplace : 0 < 2 ^ p := Nat.two_pow_pos p
  have hm : m < 10 := by
    by_contra hge
    have hmul : 10 * 2 ^ p ≤ m * 2 ^ p := Nat.mul_le_mul_right _ (Nat.not_lt.mp hge)
    unfold upperEnd at hwide
    rw [Nat.add_mul, Nat.mul_assoc] at hwide
    rw [Nat.sub_mul, Nat.mul_assoc] at hend
    omega
  exact ⟨hm, hparts.normal.resolve_right (by omega)⟩

/-- The only double that a power of ten and a number by a tenth below it are read as is the one next
to the smallest double, and the power of ten is `10^-323`. -/
theorem eq_of_wide (hparts : IsParts m p) (hm : 0 < m) {q : ℚ} (hq : Encloses m p q)
    (h : Encloses m p (multiple 1 e)) (hle : 10 * q ≤ 9 * multiple 1 e)
    (habove : (Binary64.units m p : ℚ) < multiple 1 e) :
    (Binary64.units m p : ℚ) = 2 ∧ multiple 1 e < 2.03 := by
  obtain ⟨hlt, rfl⟩ := lt_ten_of_wide hparts hq h hle
  have hunits : Binary64.units m 0 = m := Nat.mul_one m
  have hhigh := h.le.2
  have hend : upperEnd m * 2 ^ 0 = 4 * m + 2 := Nat.mul_one _
  rw [hend] at hhigh
  rw [hunits] at habove ⊢
  obtain ⟨hnear, hnear'⟩ := power_near_two
  have hm' : (1 : ℚ) ≤ m := by exact_mod_cast hm
  have hlt' : (m : ℚ) ≤ 9 := by exact_mod_cast Nat.le_of_lt_succ hlt
  push_cast at hhigh
  obtain rfl := exponent_eq_of_between (e := e) (by linarith) (by linarith)
  have htwo : m = 2 := by
    have hupper : (m : ℚ) < 3 := by linarith
    have hlower : (1 : ℚ) < m := by linarith
    have hupper' : m < 3 := by exact_mod_cast hupper
    have hlower' : 1 < m := by exact_mod_cast hlower
    omega
  exact ⟨by rw [htwo]; norm_num, hnear'⟩

/-- A power of ten in the interval is not farther from the double than what is by a tenth below
it. -/
theorem gap_power_le (hparts : IsParts m p) (hm : 0 < m) (h : Encloses m p (multiple 1 e)) {q : ℚ}
    (hq : Encloses m p q) (hle : 10 * q ≤ 9 * multiple 1 e) :
    gap m p (multiple 1 e) ≤ gap m p q := by
  have hpos := power_pos e
  unfold gap
  rcases le_or_gt (multiple 1 e) (Binary64.units m p) with hbelow | habove
  · rw [abs_of_nonpos (by linarith), abs_of_nonpos (by linarith)]
    linarith
  · obtain ⟨htwo, hnear⟩ := eq_of_wide hparts hm hq h hle habove
    rw [abs_of_nonneg (by linarith), abs_of_nonpos (by linarith)]
    linarith

/-! ## 4. The shortest decimal -/

/-- **The shortest decimal of a double** with these parts: it is read as the double; of all decimals
that are it has the fewest digits; of those with as many digits it is nearest to the double; and of
two that are equally near it is the larger one. -/
structure IsShortest (negative : Bool) (m p : Nat) (d : Decimal) : Prop where
  reads : d.toBinary64 = .finite negative m p
  fewest : ∀ d' : Decimal, d'.toBinary64 = .finite negative m p → d.width ≤ d'.width
  nearest : ∀ d' : Decimal, d'.toBinary64 = .finite negative m p → d'.width = d.width →
    gap m p d.units ≤ gap m p d'.units
  largest : ∀ d' : Decimal, d'.toBinary64 = .finite negative m p → d'.width = d.width →
    gap m p d.units = gap m p d'.units → d'.units ≤ d.units

/-- **What the search arrives at is preferred** to every other decimal in the interval that has no
more digits. -/
theorem shortest_preferred (hparts : IsParts m p) (hm : 0 < m)
    (hd : d = ⟨negative, (shortest .up m p).1, (shortest .up m p).2⟩)
    (h : Encloses m p d'.units) (hwidth : d'.width ≤ d.width) :
    d'.width = d.width ∧ gap m p d.units ≤ gap m p d'.units ∧
      (gap m p d.units = gap m p d'.units → d'.units ≤ d.units) := by
  have htaken : onGrid? .up m p d.exponent = some d.coefficient := by
    rw [hd]
    exact onGrid?_search .up hm _
  have hin : Encloses m p d.units := by
    rw [hd]
    exact shortest_encloses .up negative hm
  have hmaximal {a : Nat} {e : Int} (ha : Encloses m p (multiple a e)) : e ≤ d.exponent := by
    rw [hd]
    exact le_shortest .up hm ha
  have hcoarse := hmaximal (a := d'.coefficient) (e := d'.exponent) h
  have hpos := d'.width_pos
  by_cases hbelow : d'.exponent + d'.width ≤ d.exponent + (d.width - 1 : Nat)
  · have hlt := units_lt_power d' hbelow
    have hle := power_le_units (coefficient_ne_zero hm hin)
    have hpower := h.between hin hlt.le hle
    have hone := hmaximal hpower
    have hwidth' : d.width - 1 = 0 := by omega
    rw [hwidth', Nat.cast_zero, add_zero] at hbelow hlt hle hpower
    have hnear := (gap_onGrid?_up hm htaken hpower).1
    have hfar := gap_power_le hparts hm hpower h (units_le_of_digit (by omega) (by omega))
    exact ⟨by omega, hnear.trans hfar, fun _ => hlt.le.trans hle⟩
  · have hexponent : d'.exponent = d.exponent := by omega
    have hunits : d'.units = multiple d'.coefficient d.exponent := by
      rw [units_eq_multiple, hexponent]
    rw [hunits] at h ⊢
    exact ⟨by omega, gap_onGrid?_up hm htaken h⟩

/-- **The search arrives at the shortest decimal.** -/
theorem isShortest_shortest (negative : Bool) (hparts : IsParts m p) (hm : 0 < m) :
    IsShortest negative m p ⟨negative, (shortest .up m p).1, (shortest .up m p).2⟩ := by
  obtain ⟨d, hd⟩ : ∃ d : Decimal, d = ⟨negative, (shortest .up m p).1, (shortest .up m p).2⟩ :=
    ⟨_, rfl⟩
  have hpreferred (d' : Decimal) (h : d'.toBinary64 = .finite negative m p) :=
    shortest_preferred hparts hm hd ((toBinary64_eq_iff hparts hm).mp h).2
  have hreads : d.toBinary64 = .finite negative m p := by
    rw [hd]
    exact toBinary64_of_units .up hparts hm rfl
  rw [← hd]
  refine ⟨hreads, fun d' h => ?_, fun d' h hwidth => ?_, fun d' h hwidth => ?_⟩
  · by_contra hlt
    have heq := (hpreferred d' h (by omega)).1
    omega
  · exact (hpreferred d' h hwidth.le).2.1
  · exact (hpreferred d' h hwidth.le).2.2

/-- Of decimals that stand for the same number with as many digits none has a larger power of
ten. -/
theorem exponent_le_of_units (hd : d.coefficient ≠ 0) (hunits : d.units = d'.units)
    (hwidth : d.width = d'.width) : d.exponent ≤ d'.exponent := by
  by_contra hlt
  have hpos := d.width_pos
  have hless := units_lt_power d' (d := d) (by omega)
  have hle := power_le_units hd
  linarith

/-- The shortest decimals of a double have as many digits as each other. -/
theorem IsShortest.width_eq (h : IsShortest negative m p d) (h' : IsShortest negative m p d') :
    d.width = d'.width :=
  (h.fewest d' h'.reads).antisymm (h'.fewest d h.reads)

/-- The shortest decimals of a double stand for the same number. -/
theorem IsShortest.units_eq (h : IsShortest negative m p d) (h' : IsShortest negative m p d') :
    d.units = d'.units := by
  have hwidth := h.width_eq h'
  have hgap : gap m p d.units = gap m p d'.units :=
    (h.nearest d' h'.reads hwidth.symm).antisymm (h'.nearest d h.reads hwidth)
  exact (h'.largest d h.reads hwidth hgap.symm).antisymm (h.largest d' h'.reads hwidth.symm hgap)

/-- **A double has one shortest decimal**, if it is not zero. -/
theorem IsShortest.unique (hm : 0 < m) (h : IsShortest negative m p d)
    (h' : IsShortest negative m p d') : d = d' := by
  obtain ⟨hsign, hin⟩ := encloses_of_toBinary64 hm h.reads
  obtain ⟨hsign', hin'⟩ := encloses_of_toBinary64 hm h'.reads
  have hwidth := h.width_eq h'
  have hunits := h.units_eq h'
  have hexponent : d.exponent = d'.exponent :=
    (exponent_le_of_units (coefficient_ne_zero hm hin) hunits hwidth).antisymm
      (exponent_le_of_units (coefficient_ne_zero hm hin') hunits.symm hwidth.symm)
  have hcoefficient : d.coefficient = d'.coefficient := by
    have hmultiples : (d.coefficient : ℚ) * multiple 1 d'.exponent =
        d'.coefficient * multiple 1 d'.exponent := by
      rw [← hexponent, ← units_eq_mul, hunits, units_eq_mul, hexponent]
    exact_mod_cast mul_right_cancel₀ (power_pos d'.exponent).ne' hmultiples
  cases d
  cases d'
  simp_all

end TreeScript.Decimal
