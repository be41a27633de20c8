import Mathlib
import TreeScript.Decimal.Shortest
import TreeScript.Proofs.Binary64

/-!
# What is rounded to a double

Every finite double has a **rounding interval**, `Encloses`: the numbers that are nearer to it than
to its neighbours, and those halfway to a neighbour if its significand is even.  `nearest_eq` says
that a quotient in the interval is rounded to the double, and `Decimal.toBinary64_eq` that a decimal
in it is; `encloses_of_nearest` says that nothing else is rounded to the double.  Magnitudes are in
units of the smallest double, as in `Binary64`.

The interval of a power of two reaches only half as far down as up.  A quotient in that lower part
has the next smaller scale; its rounded significand is `2^53` there and carries into the scale.
-/

namespace TreeScript

namespace Binary64

variable {negative sign : Bool} {m p num den : Nat}

/-! ## 1. Rounding to an integer -/

/-- A quotient is rounded to the integer that it is nearest to, halfway to the even one. -/
theorem roundQuotient_eq (hden : 0 < den) (hlow : 2 * (m * den) ≤ 2 * num + den)
    (hhigh : 2 * num ≤ 2 * (m * den) + den)
    (htie : 2 * num + den = 2 * (m * den) ∨ 2 * num = 2 * (m * den) + den → m % 2 = 0) :
    roundQuotient num den = m := by
  have hsplit : num / den * den + num % den = num := Nat.div_add_mod' num den
  have hmod : num % den < den := Nat.mod_lt _ hden
  have hle : num / den ≤ m := by
    by_contra hlt
    have hmul : (m + 1) * den ≤ num / den * den := Nat.mul_le_mul_right den (by omega)
    rw [Nat.add_mul] at hmul
    omega
  have hge : m ≤ num / den + 1 := by
    by_contra hlt
    have hmul : (num / den + 2) * den ≤ m * den := Nat.mul_le_mul_right den (by omega)
    rw [Nat.add_mul] at hmul
    omega
  unfold roundQuotient
  dsimp only
  rcases Nat.lt_or_ge (num / den) m with hlt | hge'
  · have hm : m = num / den + 1 := by omega
    have hmul : m * den = num / den * den + den := by rw [hm, Nat.add_mul, Nat.one_mul]
    rw [if_neg (by omega), hm]
  · have hm : num / den = m := by omega
    rw [hm] at hsplit ⊢
    rw [if_pos (by omega)]

/-! ## 2. The rounding interval -/

/-- **The rounding interval** of a magnitude. -/
def Encloses (m p : Nat) (q : ℚ) : Prop :=
  if m % 2 = 0 then
    (Decimal.lowerEnd m p * 2 ^ p : Nat) ≤ 4 * q ∧ 4 * q ≤ (Decimal.upperEnd m * 2 ^ p : Nat)
  else (Decimal.lowerEnd m p * 2 ^ p : Nat) < 4 * q ∧ 4 * q < (Decimal.upperEnd m * 2 ^ p : Nat)

theorem Encloses.le {q : ℚ} (h : Encloses m p q) :
    (Decimal.lowerEnd m p * 2 ^ p : Nat) ≤ 4 * q ∧ 4 * q ≤ (Decimal.upperEnd m * 2 ^ p : Nat) := by
  unfold Encloses at h
  split at h
  · exact h
  · exact ⟨h.1.le, h.2.le⟩

/-- The interval has no holes. -/
theorem Encloses.between {q r s : ℚ} (h : Encloses m p q) (h' : Encloses m p s) (hqr : q ≤ r) (hrs : r ≤ s) :
    Encloses m p r := by
  unfold Encloses at h h' ⊢
  split at h
  · rename_i heven
    rw [if_pos heven] at h' ⊢
    exact ⟨h.1.trans (by linarith), le_trans (by linarith) h'.2⟩
  · rename_i hodd
    rw [if_neg hodd] at h' ⊢
    exact ⟨h.1.trans_le (by linarith), lt_of_le_of_lt (by linarith) h'.2⟩

/-- The interval without fractions. -/
theorem encloses_div_iff (hden : 0 < den) :
    Encloses m p (num / den : ℚ) ↔
      if m % 2 = 0 then
        Decimal.lowerEnd m p * (2 ^ p * den) ≤ 4 * num ∧
          4 * num ≤ Decimal.upperEnd m * (2 ^ p * den)
      else
        Decimal.lowerEnd m p * (2 ^ p * den) < 4 * num ∧
          4 * num < Decimal.upperEnd m * (2 ^ p * den) := by
  have hpos : (0 : ℚ) < den := by exact_mod_cast hden
  unfold Encloses
  rw [← mul_div_assoc, le_div_iff₀ hpos, div_le_iff₀ hpos, lt_div_iff₀ hpos, div_lt_iff₀ hpos,
    ← Nat.mul_assoc, ← Nat.mul_assoc]
  norm_cast

/-- The ends of the interval belong to it at an even significand only. -/
theorem bounds_of_encloses (hden : 0 < den) (h : Encloses m p (num / den : ℚ)) :
    Decimal.lowerEnd m p * (2 ^ p * den) ≤ 4 * num ∧
      4 * num ≤ Decimal.upperEnd m * (2 ^ p * den) ∧
      (Decimal.lowerEnd m p * (2 ^ p * den) = 4 * num ∨
        4 * num = Decimal.upperEnd m * (2 ^ p * den) → m % 2 = 0) := by
  rw [encloses_div_iff hden] at h
  split at h
  · rename_i heven
    exact ⟨h.1, h.2, fun _ => heven⟩
  · exact ⟨h.1.le, h.2.le, by omega⟩

/-- The lower end is half a place below the magnitude, or nearer. -/
theorem le_lowerEnd (m p : Nat) : 4 * m - 2 ≤ Decimal.lowerEnd m p := by
  unfold Decimal.lowerEnd
  split <;> omega

theorem lowerEnd_lt (p : Nat) (hm : 0 < m) : Decimal.lowerEnd m p < 4 * m := by
  unfold Decimal.lowerEnd
  split <;> omega

theorem lowerEnd_power (hp : 0 < p) : Decimal.lowerEnd (2 ^ 52) p = 2 ^ 54 - 1 := by
  unfold Decimal.lowerEnd
  rw [if_pos ⟨rfl, hp⟩]
  rfl

theorem lowerEnd_of_not_power (h : ¬ (m = 2 ^ 52 ∧ 0 < p)) : Decimal.lowerEnd m p = 4 * m - 2 :=
  if_neg h

/-- A double lies in its interval. -/
theorem encloses_units (hm : 0 < m) : Encloses m p (units m p) := by
  have hpos : 0 < 2 ^ p := Nat.two_pow_pos p
  have hlow : Decimal.lowerEnd m p * 2 ^ p < 4 * units m p := by
    unfold units
    rw [Nat.pow_eq, ← Nat.mul_assoc]
    exact Nat.mul_lt_mul_of_pos_right (lowerEnd_lt p hm) hpos
  have hhigh : 4 * units m p < Decimal.upperEnd m * 2 ^ p := by
    unfold units Decimal.upperEnd
    rw [Nat.pow_eq, ← Nat.mul_assoc]
    exact Nat.mul_lt_mul_of_pos_right (by omega) hpos
  have hlow' : ((Decimal.lowerEnd m p * 2 ^ p : Nat) : ℚ) < 4 * (units m p : ℚ) := by
    exact_mod_cast hlow
  have hhigh' : 4 * (units m p : ℚ) < (Decimal.upperEnd m * 2 ^ p : Nat) := by exact_mod_cast hhigh
  unfold Encloses
  split
  · exact ⟨hlow'.le, hhigh'.le⟩
  · exact ⟨hlow', hhigh'⟩

/-! ## 3. Rounding to a double -/

/-- The scale at which a magnitude has 53 bits, or the smallest one if it has fewer. -/
theorem scaleOf_eq {w : Nat} (hlow : p = 0 ∨ 2 ^ 52 * 2 ^ p ≤ w) (hhigh : w < 2 ^ 53 * 2 ^ p) :
    scaleOf w = p := by
  unfold scaleOf
  rcases Nat.eq_zero_or_pos w with rfl | hw
  · have hpow : 0 < 2 ^ 52 * 2 ^ p := by positivity
    rw [Nat.log2_zero]
    omega
  · rw [← Nat.pow_add] at hlow hhigh
    have hlt : w.log2 < 53 + p := (Nat.log2_lt (by omega)).mpr hhigh
    rcases hlow with rfl | hlow
    · omega
    · have hge : 52 + p ≤ w.log2 := (Nat.le_log2 (by omega)).mpr hlow
      omega

/-- What rounding at some scale has to give for a magnitude. -/
theorem nearest_of_scaleOf {k r : Nat} (hparts : IsParts m p) (hscale : scaleOf (num / den) = k)
    (hround : roundQuotient num (2 ^ k * den) = r) (hbits : magnitudeBits r k = p * 2 ^ 52 + m) :
    nearest negative num den = .finite negative m p := by
  unfold nearest
  simp only [Nat.pow_eq]
  rw [hscale, Nat.mul_comm den, hround, hbits, ofMagnitudeBits_eq hparts]

/-- Inside the interval, and not below the scale of the magnitude. -/
theorem nearest_of_scale_le (hparts : IsParts m p) (hden : 0 < den)
    (h : Encloses m p (num / den : ℚ)) (hover : num / den < 2 ^ 53 * 2 ^ p)
    (hscale : p = 0 ∨ 2 ^ 52 * 2 ^ p ≤ num / den) :
    nearest negative num den = .finite negative m p := by
  obtain ⟨hlow, hhigh, htie⟩ := bounds_of_encloses hden h
  have hplace : 0 < 2 ^ p * den := by positivity
  have hend := Nat.mul_le_mul_right (2 ^ p * den) (le_lowerEnd m p)
  rw [Nat.sub_mul, Nat.mul_assoc] at hend
  unfold Decimal.upperEnd at hhigh htie
  rw [Nat.add_mul, Nat.mul_assoc] at hhigh htie
  refine nearest_of_scaleOf hparts (scaleOf_eq hscale hover)
    (roundQuotient_eq hplace (by omega) (by omega) fun h => htie ?_)
    (magnitudeBits_eq (Nat.le_of_lt hparts.lt) hparts.le)
  rcases h with h | h <;> omega

/-- Below the scale of the magnitude only the interval of a power of two has anything. -/
theorem eq_of_encloses_of_lt (hparts : IsParts m p) (hp : p ≠ 0) (hden : 0 < den)
    (h : Encloses m p (num / den : ℚ)) (hunder : num / den < 2 ^ 52 * 2 ^ p) : m = 2 ^ 52 := by
  obtain ⟨hlow, -, -⟩ := bounds_of_encloses hden h
  have hge := hparts.normal.resolve_left hp
  have hend := Nat.mul_le_mul_right (2 ^ p * den) (le_lowerEnd m p)
  rw [Nat.div_lt_iff_lt_mul hden, Nat.mul_assoc] at hunder
  by_contra hne
  have hmore : (2 ^ 54 + 2) * (2 ^ p * den) ≤ (4 * m - 2) * (2 ^ p * den) :=
    Nat.mul_le_mul_right _ (by omega)
  omega

/-- Inside the interval and below the scale of the magnitude, the significand carries. -/
theorem nearest_of_lt_scale (hparts : IsParts m p) (hp : p ≠ 0) (hden : 0 < den)
    (h : Encloses m p (num / den : ℚ)) (hunder : num / den < 2 ^ 52 * 2 ^ p) :
    nearest negative num den = .finite negative m p := by
  obtain rfl := eq_of_encloses_of_lt hparts hp hden h hunder
  obtain ⟨k, rfl⟩ : ∃ k, p = k + 1 := ⟨p - 1, by omega⟩
  obtain ⟨hlow, -, -⟩ := bounds_of_encloses hden h
  have hdouble : 2 ^ (k + 1) * den = 2 * (2 ^ k * den) := by ring
  have hplace : 0 < 2 ^ k * den := by positivity
  rw [lowerEnd_power k.succ_pos, hdouble] at hlow
  rw [Nat.div_lt_iff_lt_mul hden, Nat.mul_assoc, hdouble] at hunder
  have hscale : scaleOf (num / den) = k := by
    refine scaleOf_eq (.inr ?_) ?_
    · rw [Nat.le_div_iff_mul_le hden, Nat.mul_assoc]
      omega
    · rw [Nat.div_lt_iff_lt_mul hden, Nat.mul_assoc]
      omega
  have hround : roundQuotient num (2 ^ k * den) = 2 ^ 53 :=
    roundQuotient_eq hplace (by omega) (by omega) fun _ => by decide
  have hle := hparts.le
  refine nearest_of_scaleOf hparts hscale hround ?_
  rw [magnitudeBits_eq (Nat.le_refl _) (by omega)]
  ring

/-- **A quotient in the rounding interval of a double is rounded to the double.** -/
theorem nearest_eq (hparts : IsParts m p) (hden : 0 < den) (h : Encloses m p (num / den : ℚ)) :
    nearest negative num den = .finite negative m p := by
  have hover : num / den < 2 ^ 53 * 2 ^ p := by
    obtain ⟨-, hhigh, -⟩ := bounds_of_encloses hden h
    have hlt := hparts.lt
    have hmul : Decimal.upperEnd m * (2 ^ p * den) < 2 ^ 55 * (2 ^ p * den) :=
      Nat.mul_lt_mul_of_pos_right (by unfold Decimal.upperEnd; omega) (by positivity)
    rw [Nat.div_lt_iff_lt_mul hden, Nat.mul_assoc]
    omega
  by_cases hscale : p = 0 ∨ 2 ^ 52 * 2 ^ p ≤ num / den
  · exact nearest_of_scale_le hparts hden h hover hscale
  · obtain ⟨hp, hunder⟩ := not_or.mp hscale
    exact nearest_of_lt_scale hparts hp hden h (Nat.not_le.mp hunder)

/-! ## 4. What is rounded to a double -/

/-- A quotient is at most halfway from the integer that it is rounded to, and halfway from an even
one only. -/
theorem bounds_of_roundQuotient (hden : 0 < den) (h : roundQuotient num den = m) :
    2 * (m * den) ≤ 2 * num + den ∧ 2 * num ≤ 2 * (m * den) + den ∧
      (2 * num + den = 2 * (m * den) ∨ 2 * num = 2 * (m * den) + den → m % 2 = 0) := by
  have hsplit : num / den * den + num % den = num := Nat.div_add_mod' num den
  have hmod : num % den < den := Nat.mod_lt _ hden
  unfold roundQuotient at h
  dsimp only at h
  split at h
  · subst h
    omega
  · subst h
    rw [Nat.add_mul]
    omega

/-- At its scale the integer part of a quotient has 53 bits at most, and all of them if the scale is
not the smallest one. -/
theorem bounds_of_scaleOf (num : Nat) (hden : 0 < den) :
    num < 2 ^ 53 * (2 ^ scaleOf (num / den) * den) ∧
      (scaleOf (num / den) = 0 ∨ 2 ^ 52 * (2 ^ scaleOf (num / den) * den) ≤ num) := by
  have hlog : (num / den).log2 ≤ 52 + scaleOf (num / den) := by
    unfold scaleOf
    omega
  have hbits : num / den < 2 ^ 53 * 2 ^ scaleOf (num / den) := by
    rw [← Nat.pow_add]
    exact Nat.lt_log2_self.trans_le (Nat.pow_le_pow_right (by decide) (by omega))
  refine ⟨?_, (Nat.eq_zero_or_pos _).imp_right fun hpos => ?_⟩
  · rw [← Nat.mul_assoc]
    exact (Nat.div_lt_iff_lt_mul hden).mp hbits
  · have hexact : 52 + scaleOf (num / den) = (num / den).log2 := by
      unfold scaleOf at hpos ⊢
      omega
    have hne : num / den ≠ 0 := by
      intro hzero
      rw [hzero, Nat.log2_zero] at hexact
      omega
    rw [← Nat.mul_assoc, ← Nat.le_div_iff_mul_le hden, ← Nat.pow_add, hexact]
    exact Nat.log2_self_le hne

/-- The integer that a quotient is rounded to at its scale, and the scale, are the parts of the
double that it is rounded to, unless the integer has carried. -/
theorem parts_of_nearest (hden : 0 < den) (h : nearest sign num den = .finite negative m p) :
    negative = sign ∧ IsParts m p ∧ ∃ k r, scaleOf (num / den) = k ∧
      roundQuotient num (2 ^ k * den) = r ∧ (p = k ∧ m = r ∨ p = k + 1 ∧ m = 2 ^ 52 ∧ r = 2 ^ 53) := by
  obtain ⟨hover, hscale⟩ := bounds_of_scaleOf num hden
  unfold nearest at h
  simp only [Nat.pow_eq] at h
  rw [Nat.mul_comm den] at h
  obtain ⟨hsign, hparts, hbits⟩ := eq_of_ofMagnitudeBits h
  generalize scaleOf (num / den) = k at *
  obtain ⟨r, hround⟩ : ∃ r, roundQuotient num (2 ^ k * den) = r := ⟨_, rfl⟩
  refine ⟨hsign, hparts, k, r, rfl, hround, ?_⟩
  obtain ⟨hlow, hhigh, -⟩ := bounds_of_roundQuotient (by positivity) hround
  rw [hround] at hbits
  have hr : r ≤ 2 ^ 53 := by
    by_contra hlt
    have hmul : (2 ^ 53 + 1) * (2 ^ k * den) ≤ r * (2 ^ k * den) :=
      Nat.mul_le_mul_right _ (by omega)
    rw [Nat.add_mul] at hmul
    omega
  have hnormal : k = 0 ∨ 2 ^ 52 ≤ r := by
    refine hscale.imp_right fun hle => ?_
    by_contra hlt
    have hmul : (r + 1) * (2 ^ k * den) ≤ 2 ^ 52 * (2 ^ k * den) :=
      Nat.mul_le_mul_right _ (by omega)
    rw [Nat.add_mul] at hmul
    omega
  obtain ⟨hlt, hnormal', hle⟩ := hparts
  unfold magnitudeBits infinityBits at hbits
  simp only [Nat.pow_eq] at hbits
  omega

/-- **A quotient that is rounded to a double lies in the rounding interval of the double.** -/
theorem encloses_of_nearest (hden : 0 < den) (h : nearest sign num den = .finite negative m p) :
    Encloses m p (num / den : ℚ) := by
  obtain ⟨-, -, k, r, hscale, hround, hcases⟩ := parts_of_nearest hden h
  obtain ⟨hover, hunder⟩ := bounds_of_scaleOf num hden
  rw [hscale] at hover hunder
  obtain ⟨hlow, hhigh, htie⟩ := bounds_of_roundQuotient (by positivity) hround
  rw [encloses_div_iff hden]
  unfold Decimal.upperEnd
  rcases hcases with ⟨rfl, rfl⟩ | ⟨rfl, rfl, rfl⟩
  · generalize 2 ^ p * den = place at *
    by_cases hpower : m = 2 ^ 52 ∧ 0 < p
    · obtain ⟨rfl, hp⟩ := hpower
      have hle := hunder.resolve_left (by omega)
      rw [lowerEnd_power hp, if_pos (by decide)]
      omega
    · rw [lowerEnd_of_not_power hpower, Nat.sub_mul, Nat.add_mul, Nat.mul_assoc]
      split
      · omega
      · rename_i hodd
        have hmore := mt htie hodd
        have hle : place ≤ m * place := Nat.le_mul_of_pos_left place (by omega)
        omega
  · have hdouble : 2 ^ (k + 1) * den = 2 * (2 ^ k * den) := by ring
    rw [hdouble, lowerEnd_power (by omega), if_pos (by decide)]
    omega

end Binary64

end TreeScript
