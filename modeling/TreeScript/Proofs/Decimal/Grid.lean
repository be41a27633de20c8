import TreeScript.Proofs.Decimal.Shortest

/-!
# What the search finds

The search for the digits of a double looks at the multiples of one power of ten after the other.
On each grid of multiples it takes the one in the rounding interval that is nearest to the double,
the upper one of two (`gap_onGrid?_up`); it looks only at the two multiples around the double, and
these are enough because the interval has no holes (`exists_onGrid?`).  The search begins above all
multiples in the interval and passes none, so that it ends at the largest power of ten that has one
(`le_shortest`).
-/

namespace TreeScript.Decimal

open Binary64 (IsParts Encloses)

variable {m p : Nat} {e : Int} {a b : Nat}

/-! ## 1. Multiples of a power of ten -/

/-- The number `a · 10^e`, in units of the smallest double. -/
def multiple (a : Nat) (e : Int) : ℚ := a * 10 ^ e * Binary64.one

theorem units_eq_multiple (d : Decimal) : d.units = multiple d.coefficient d.exponent := rfl

theorem units_eq_mul (d : Decimal) : d.units = d.coefficient * multiple 1 d.exponent := by
  unfold units multiple
  ring

theorem cast_one_pos : (0 : ℚ) < Binary64.one := Nat.cast_pos.mpr Binary64.one_pos

theorem multiple_le_multiple (h : a ≤ b) (e : Int) : multiple a e ≤ multiple b e := by
  have hcast : (a : ℚ) ≤ b := by exact_mod_cast h
  have hone := cast_one_pos
  unfold multiple
  generalize (Binary64.one : ℚ) = one at *
  gcongr

/-- An integer in units of the smallest double. -/
theorem multiple_natCast (a k : Nat) : multiple a k = (a * 10 ^ k * Binary64.one : Nat) := by
  unfold multiple
  rw [zpow_natCast]
  push_cast
  rfl

/-- A multiple of a power of ten in the steps of its grid. -/
theorem multiple_mul_grid (a : Nat) (e : Int) :
    multiple a e * (4 * (grid e).2) = a * (grid e).1 := by
  have hpos := quotient_pos ⟨false, a, e⟩
  obtain ⟨hstep, hplace⟩ := grid_eq_quotient false a e
  have hstep' : (a : ℚ) * (grid e).1 = 4 * (quotient ⟨false, a, e⟩).1 := by exact_mod_cast hstep
  have hunits := quotient_eq_units ⟨false, a, e⟩
  rw [units_eq_multiple] at hunits
  rw [hstep', hplace, ← hunits]
  field_simp

theorem grid_pos (e : Int) : (0 : ℚ) < (grid e).2 := by
  unfold grid
  split
  · norm_num
  · simp only [Nat.pow_eq]
    positivity

/-- A magnitude in the steps of a grid. -/
theorem units_mul_grid (m p : Nat) (e : Int) :
    (Binary64.units m p : ℚ) * (4 * (grid e).2) = (4 * m * (2 ^ p * (grid e).2) : Nat) := by
  unfold Binary64.units
  simp only [Nat.pow_eq]
  push_cast
  ring

theorem le_below_iff : a ≤ below m p e ↔ multiple a e ≤ Binary64.units m p := by
  have hpos : 0 < (grid e).1 := by
    have hquarter : 0 < quarter := by decide +kernel
    unfold grid
    split
    · simp only [Nat.pow_eq]
      positivity
    · exact hquarter
  have hgrid : (0 : ℚ) < 4 * (grid e).2 := mul_pos (by norm_num) (grid_pos e)
  rw [← mul_le_mul_iff_of_pos_right hgrid, multiple_mul_grid, units_mul_grid]
  unfold below
  simp only [Nat.pow_eq]
  rw [Nat.le_div_iff_mul_le hpos]
  norm_cast

/-- Of two multiples next to each other the upper one is taken if the double is not below the middle
of them. -/
theorem nearerAbove_up_iff :
    nearerAbove .up m p e a = true ↔
      multiple a e + multiple (a + 1) e ≤ 2 * (Binary64.units m p : ℚ) := by
  have hgrid : (0 : ℚ) < 4 * (grid e).2 := mul_pos (by norm_num) (grid_pos e)
  rw [← mul_le_mul_iff_of_pos_right hgrid, add_mul, mul_assoc, multiple_mul_grid,
    multiple_mul_grid, units_mul_grid, ← add_mul]
  unfold nearerAbove
  simp only [decide_eq_true_eq, Nat.pow_eq]
  have hmiddle : (a : ℚ) + (a + 1 : Nat) = (2 * a + 1 : Nat) := by
    push_cast
    ring
  rw [hmiddle]
  norm_cast

/-! ## 2. The nearest multiple -/

theorem encloses_multiple_iff : reads m p e a = true ↔ Encloses m p (multiple a e) :=
  reads_iff false e a

/-- Where the middle of two multiples next to each other lies, seen from the double. -/
theorem nearerAbove_up_eq_false :
    nearerAbove .up m p e a = false ↔
      2 * (Binary64.units m p : ℚ) < multiple a e + multiple (a + 1) e := by
  rw [← Bool.not_eq_true, nearerAbove_up_iff, not_le]

/-- **What is taken of a grid** is one of the two multiples around the double that are in the
interval, and if both of them are the nearer one, the upper one halfway. -/
theorem onGrid?_up (h : onGrid? .up m p e = some b) :
    (b = below m p e ∨ b = below m p e + 1) ∧ Encloses m p (multiple b e) ∧
      (b = below m p e → Encloses m p (multiple (b + 1) e) →
        2 * (Binary64.units m p : ℚ) < multiple b e + multiple (b + 1) e) ∧
      (b = below m p e + 1 → Encloses m p (multiple (below m p e) e) →
        multiple (below m p e) e + multiple b e ≤ 2 * (Binary64.units m p : ℚ)) := by
  unfold onGrid? at h
  dsimp only at h
  split at h
  · rename_i hlow hhigh
    have hb := Option.some.inj h
    split at hb
    · rename_i hnearer
      subst hb
      exact ⟨.inr rfl, encloses_multiple_iff.mp hhigh, by omega,
        fun _ _ => nearerAbove_up_iff.mp hnearer⟩
    · rename_i hfarther
      subst hb
      exact ⟨.inl rfl, encloses_multiple_iff.mp hlow,
        fun _ _ => nearerAbove_up_eq_false.mp (Bool.eq_false_of_not_eq_true hfarther), by omega⟩
  · rename_i hlow hhigh
    obtain rfl := Option.some.inj h
    refine ⟨.inl rfl, encloses_multiple_iff.mp hlow, fun _ hin => ?_, by omega⟩
    rw [← encloses_multiple_iff, hhigh] at hin
    cases hin
  · rename_i hlow hhigh
    obtain rfl := Option.some.inj h
    refine ⟨.inr rfl, encloses_multiple_iff.mp hhigh, by omega, fun _ hin => ?_⟩
    rw [← encloses_multiple_iff, hlow] at hin
    cases hin
  · cases h

/-- Where the multiples of a power of ten lie: at or below the one that is below the double, or at or
above the next one. -/
theorem below_between (m p : Nat) (e : Int) :
    multiple (below m p e) e ≤ Binary64.units m p ∧
      (Binary64.units m p : ℚ) < multiple (below m p e + 1) e := by
  refine ⟨le_below_iff.mp le_rfl, ?_⟩
  rw [← not_le, ← le_below_iff]
  omega

/-- If the interval has a multiple, one of the two around the double is in it. -/
theorem exists_onGrid? (tie : Tie) (hm : 0 < m) (h : Encloses m p (multiple a e)) :
    ∃ b, onGrid? tie m p e = some b := by
  obtain ⟨hbelow, habove⟩ := below_between m p e
  have hself := Binary64.encloses_units (p := p) hm
  have hone : reads m p e (below m p e) = true ∨ reads m p e (below m p e + 1) = true := by
    rw [encloses_multiple_iff, encloses_multiple_iff]
    rcases Nat.lt_or_ge (below m p e) a with hlt | hge
    · exact .inr (hself.between h habove.le (multiple_le_multiple hlt e))
    · exact .inl (h.between hself (multiple_le_multiple hge e) hbelow)
  unfold onGrid?
  dsimp only
  split
  · exact ⟨_, rfl⟩
  · exact ⟨_, rfl⟩
  · exact ⟨_, rfl⟩
  · simp_all

/-- How far a number is from a double. -/
def gap (m p : Nat) (q : ℚ) : ℚ := |q - Binary64.units m p|

/-- **What is taken of a grid is nearest** among the multiples in the interval, and the largest of
the nearest ones. -/
theorem gap_onGrid?_up (hm : 0 < m) (h : onGrid? .up m p e = some b)
    (ha : Encloses m p (multiple a e)) :
    gap m p (multiple b e) ≤ gap m p (multiple a e) ∧
      (gap m p (multiple b e) = gap m p (multiple a e) → multiple a e ≤ multiple b e) := by
  obtain ⟨hbelow, habove⟩ := below_between m p e
  obtain ⟨hb, hin, hlow, hhigh⟩ := onGrid?_up h
  have hself := Binary64.encloses_units (p := p) hm
  unfold gap
  rcases Nat.lt_or_ge (below m p e) a with hlt | hge
  · have hle := multiple_le_multiple hlt e
    have hnext := hself.between ha habove.le hle
    rw [abs_of_nonneg (a := multiple a e - _) (by linarith)]
    rcases hb with rfl | rfl
    · have hmiddle := hlow rfl hnext
      rw [abs_of_nonpos (by linarith)]
      exact ⟨by linarith, fun heq => by linarith⟩
    · rw [abs_of_nonneg (by linarith)]
      exact ⟨by linarith, fun heq => by linarith⟩
  · have hle := multiple_le_multiple hge e
    have hnext := ha.between hself hle hbelow
    rw [abs_of_nonpos (a := multiple a e - _) (by linarith)]
    rcases hb with rfl | rfl
    · rw [abs_of_nonpos (by linarith)]
      exact ⟨by linarith, fun heq => by linarith⟩
    · have hmiddle := hhigh rfl hnext
      rw [abs_of_nonneg (by linarith)]
      exact ⟨by linarith, fun _ => by linarith⟩

/-! ## 3. The search -/

/-- The search does not pass a power of ten that has a multiple in the interval. -/
theorem le_search (tie : Tie) (hm : 0 < m) (h : Encloses m p (multiple a e)) : ∀ steps : Nat,
    e ≤ lastExponent + steps → e ≤ (search tie m p steps).2
  | 0, hle => by
    unfold search
    simpa using hle
  | steps + 1, hle => by
    unfold search
    split
    · exact hle
    · rename_i hnone
      refine le_search tie hm h steps ?_
      by_contra hlt
      obtain rfl : e = lastExponent + (steps + 1 : Nat) := by omega
      obtain ⟨b, hb⟩ := exists_onGrid? tie hm h
      rw [hnone] at hb
      cases hb

/-- A power of ten that is at least as large as a magnitude with its bits three to a digit. -/
theorem lt_ten_pow {w k : Nat} (h : w.log2 / 3 + 2 < k) : 4 * (w + 1) ≤ 10 ^ k := by
  have hlog : w < 2 ^ (w.log2 + 1) := Nat.lt_log2_self
  calc 4 * (w + 1) ≤ 2 ^ 2 * 2 ^ (w.log2 + 1) := Nat.mul_le_mul (by decide) hlog
    _ = 2 ^ (w.log2 + 3) := by ring
    _ ≤ 2 ^ (3 * k) := Nat.pow_le_pow_right (by decide) (by omega)
    _ = 8 ^ k := Nat.pow_mul 2 3 k
    _ ≤ 10 ^ k := Nat.pow_le_pow_left (by decide) k

/-- The search starts above all multiples in the interval. -/
theorem le_start (hm : 0 < m) (h : Encloses m p (multiple a e)) :
    e ≤ lastExponent + startSteps m p := by
  by_contra habove
  have ha : a ≠ 0 := coefficient_ne_zero (d := ⟨false, a, e⟩) hm h
  unfold startSteps lastExponent at habove
  obtain ⟨k, rfl⟩ := Int.eq_ofNat_of_zero_le (a := e) (by omega)
  have hpow := lt_ten_pow (w := Binary64.units m p / Binary64.one) (k := k) (by omega)
  have hlt := Nat.lt_mul_div_succ (Binary64.units m p) Binary64.one_pos
  have hend : upperEnd m * 2 ^ p ≤ 8 * Binary64.units m p := by
    unfold upperEnd Binary64.units
    rw [Nat.pow_eq, ← Nat.mul_assoc]
    exact Nat.mul_le_mul_right _ (by omega)
  have hhigh := h.le.2
  rw [multiple_natCast] at hhigh
  have hhigh' : 4 * (a * 10 ^ k * Binary64.one) ≤ upperEnd m * 2 ^ p := by exact_mod_cast hhigh
  have hmul := Nat.mul_le_mul_right Binary64.one hpow
  have hmore : 10 ^ k * Binary64.one ≤ a * 10 ^ k * Binary64.one := by
    rw [Nat.mul_assoc]
    exact Nat.le_mul_of_pos_left _ (Nat.pos_of_ne_zero ha)
  rw [Nat.mul_comm Binary64.one] at hlt
  rw [Nat.mul_assoc] at hmul
  omega

/-- **The shortest decimal is a multiple of the largest power of ten** that has one in the
interval. -/
theorem le_shortest (tie : Tie) (hm : 0 < m) (h : Encloses m p (multiple a e)) :
    e ≤ (shortest tie m p).2 :=
  le_search tie hm h _ (le_start hm h)

end TreeScript.Decimal
