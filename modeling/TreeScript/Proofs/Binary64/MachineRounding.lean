import TreeScript.Proofs.Binary64.Unpacked
import TreeScript.Proofs.Decimal.Rounding

/-!
# How the machine rounds

The machine shifts a significand to the right until it has 53 bits, keeping of what it shifts out
the last bit and whether there was anything below it, `IsShifted`.  This is enough to round the
quotient by the last place that is kept (`IsShifted.roundedMantissa`).  A significand that carries is
shifted once more, and a scale that is too large is packed to infinity.  `ofModel_pack_round` says
that the outcome is the double that `nearest` gives.
-/

namespace TreeScript.Binary64

open Float.Model Float.Model.UnpackedFloat

/-! ## 1. What is shifted out of a significand -/

/-- A shifted significand and the two bits that say what has been shifted out of it. -/
structure IsShifted (num den : Nat) (e : ExtendedMantissa) : Prop where
  mantissa : e.mantissa = num / den
  roundBit : e.roundBit = true ↔ den ≤ 2 * (num % den)
  stickyBit : e.stickyBit = true ↔ 2 * (num % den) ≠ 0 ∧ 2 * (num % den) ≠ den

variable {num den : Nat} {e : ExtendedMantissa}

theorem isShifted_exact (m : Nat) : IsShifted m 1 ⟨m, false, false⟩ where
  mantissa := (Nat.div_one m).symm
  roundBit := by simp [Nat.mod_one]
  stickyBit := by simp [Nat.mod_one]

/-- One more place is shifted out. -/
theorem IsShifted.shiftRightOne (h : IsShifted num den e) (hden : 0 < den) :
    IsShifted num (den * 2) e.shiftRightOne := by
  have hlt : num % den < den := Nat.mod_lt _ hden
  have hmod : num % (den * 2) = num % den + den * (num / den % 2) := Nat.mod_mul
  have hbit : num / den % 2 = 0 ∨ num / den % 2 = 1 := by omega
  refine ⟨?_, ?_, ?_⟩
  · exact (congrArg (· / 2) h.mantissa).trans (Nat.div_div_eq_div_mul num den 2)
  · have hround : e.shiftRightOne.roundBit = (e.mantissa % 2 != 0) := rfl
    rw [hround, h.mantissa, hmod, bne_iff_ne]
    rcases hbit with hb | hb <;> rw [hb] <;> omega
  · have hsticky : e.shiftRightOne.stickyBit = (e.roundBit || e.stickyBit) := rfl
    rw [hsticky, Bool.or_eq_true, h.roundBit, h.stickyBit, hmod]
    rcases hbit with hb | hb <;> rw [hb] <;> omega

/-- Any number of places is shifted out. -/
theorem IsShifted.shiftRight (h : IsShifted num den e) (hden : 0 < den) (k : Nat) :
    IsShifted num (den * 2 ^ k) (e >>> k) := by
  induction k with
  | zero =>
    rw [Nat.pow_zero, Nat.mul_one]
    exact h
  | succ k ih =>
    have hnext := ih.shiftRightOne (Nat.mul_pos hden (Nat.two_pow_pos k))
    rw [Nat.mul_assoc, ← Nat.pow_succ] at hnext
    exact hnext

/-- **The bits that are kept of what is shifted out are enough to round it.** -/
theorem IsShifted.roundedMantissa (h : IsShifted num den e) (hden : 0 < den) :
    e.roundedMantissa = roundQuotient num den := by
  obtain ⟨m, r, s⟩ := e
  obtain ⟨hm, hr, hs⟩ := h
  dsimp only at hm hr hs
  have hlt : num % den < den := Nat.mod_lt _ hden
  unfold roundQuotient
  dsimp only
  rw [← hm]
  have hexact : (ExtendedMantissa.mk m false false).roundedMantissa = m := rfl
  have hbelow : (ExtendedMantissa.mk m false true).roundedMantissa = m := rfl
  have htie : (ExtendedMantissa.mk m true false).roundedMantissa = m + m % 2 := rfl
  have habove : (ExtendedMantissa.mk m true true).roundedMantissa = m + 1 := rfl
  cases r <;> cases s <;>
    simp only [Bool.false_eq_true, false_iff, true_iff] at hr hs
  · rw [hexact, if_pos (by omega)]
  · rw [hbelow, if_pos (by omega)]
  · rw [htie]
    split <;> omega
  · rw [habove, if_neg (by omega)]


/-! ## 2. Rounding to a scale -/

/-- The double with a rounded significand, which may have carried. -/
def carried (negative : Bool) (r p : Nat) : Binary64 :=
  if r < 2 ^ 53 then .finite negative r p else .finite negative (2 ^ 52) (p + 1)

variable {negative : Bool} {m p q : Nat}

/-- The exponent that the machine rounds to. -/
theorem targetExponent_eq (m q : Nat) :
    Format.binary64.targetExponent (totalExponent m ((q : Int) - 1074)) =
      ((m.log2 + q - 52 : Nat) : Int) - 1074 := by
  have hbits : (Format.binary64.mantissaBits : Int) = 53 := by decide
  have hmin : Format.binary64.minExponent = -1074 := by decide
  unfold Format.targetExponent totalExponent
  rw [hbits, hmin]
  omega

/-- Shifting to the exponent that the machine rounds to. -/
theorem shiftToTargetExponent_eq (hq : q ≤ m.log2 + q - 52) :
    shiftToTargetExponent Format.binary64 m ((q : Int) - 1074) .exact =
      ((⟨m, false, false⟩ : ExtendedMantissa) >>> (m.log2 + q - 52 - q),
        ((m.log2 + q - 52 : Nat) : Int) - 1074) := by
  unfold shiftToTargetExponent shiftToExponent
  dsimp only
  rw [targetExponent_eq]
  have hamount : (((m.log2 + q - 52 : Nat) : Int) - 1074 - ((q : Int) - 1074)).toNat =
      m.log2 + q - 52 - q := by omega
  rw [hamount, Prod.mk.injEq]
  exact ⟨rfl, by omega⟩

/-- What is rounded already is not shifted again, unless it has carried. -/
theorem shiftToTargetExponent_carried {r : Nat} (hr : r ≤ 2 ^ 53) :
    (shiftToTargetExponent Format.binary64 r ((p : Int) - 1074) .exact).1.mantissa =
        (if r < 2 ^ 53 then r else 2 ^ 52) ∧
      (shiftToTargetExponent Format.binary64 r ((p : Int) - 1074) .exact).2 =
        (if r < 2 ^ 53 then (p : Int) - 1074 else (p + 1 : Nat) - 1074) := by
  unfold shiftToTargetExponent shiftToExponent
  dsimp only
  rw [targetExponent_eq]
  split
  · rename_i hlt
    have hlog : r.log2 ≤ 52 := by
      rcases Nat.eq_zero_or_pos r with rfl | hpos
      · decide
      · have := (Nat.log2_lt (Nat.pos_iff_ne_zero.mp hpos)).mpr hlt
        omega
    have hamount : (((r.log2 + p - 52 : Nat) : Int) - 1074 - ((p : Int) - 1074)).toNat = 0 := by
      omega
    rw [hamount]
    exact ⟨rfl, by omega⟩
  · obtain rfl : r = 2 ^ 53 := by omega
    have hamount : ((((2 ^ 53 : Nat).log2 + p - 52 : Nat) : Int) - 1074 - ((p : Int) - 1074)).toNat =
        1 := by
      rw [Nat.log2_two_pow]
      omega
    rw [hamount]
    exact ⟨rfl, by omega⟩


theorem roundQuotient_le_succ (num den : Nat) : roundQuotient num den ≤ num / den + 1 := by
  unfold roundQuotient
  dsimp only
  split <;> omega

theorem le_roundQuotient (num den : Nat) : num / den ≤ roundQuotient num den := by
  unfold roundQuotient
  dsimp only
  split <;> omega

/-- Rounding a quotient does not depend on a common factor. -/
theorem roundQuotient_mul_right (num den : Nat) {c : Nat} (hc : 0 < c) :
    roundQuotient (num * c) (den * c) = roundQuotient num den := by
  have hmod : 2 * (num * c % (den * c)) = 2 * (num % den) * c := by
    rw [Nat.mul_mod_mul_right, Nat.mul_assoc]
  unfold roundQuotient
  dsimp only
  simp only [Nat.mul_div_mul_right _ _ hc, hmod, Nat.mul_lt_mul_right hc,
    Nat.mul_left_inj hc.ne']

/-- At the scale of a magnitude it has 53 bits at most. -/
theorem div_lt_of_log2 (m : Nat) {k : Nat} (hk : m.log2 ≤ 52 + k) : m / 2 ^ k < 2 ^ 53 := by
  rw [Nat.div_lt_iff_lt_mul (Nat.two_pow_pos k), ← Nat.pow_add]
  exact Nat.lt_log2_self.trans_le (Nat.pow_le_pow_right (by decide) (by omega))

/-- What the machine rounds a significand to that has no bits to spare. -/
theorem roundWithAccuracy_eq (hq : q ≤ m.log2 + q - 52) :
    roundWithAccuracy Format.binary64 (signOf negative) m ((q : Int) - 1074) .exact =
      (carried negative (roundQuotient m (2 ^ (m.log2 + q - 52 - q))) (m.log2 + q - 52)).unpacked := by
  have hden := Nat.two_pow_pos (m.log2 + q - 52 - q)
  have hshifted := (isShifted_exact m).shiftRight Nat.one_pos (m.log2 + q - 52 - q)
  rw [Nat.one_mul] at hshifted
  have hround := hshifted.roundedMantissa hden
  have hlt := div_lt_of_log2 m (k := m.log2 + q - 52 - q) (by omega)
  have hle := roundQuotient_le_succ m (2 ^ (m.log2 + q - 52 - q))
  unfold roundWithAccuracy
  rw [shiftToTargetExponent_eq hq]
  dsimp only
  rw [hround]
  generalize roundQuotient m (2 ^ (m.log2 + q - 52 - q)) = r at *
  generalize m.log2 + q - 52 = p at *
  obtain ⟨hmantissa, hexponent⟩ := shiftToTargetExponent_carried (p := p) (r := r) (by omega)
  generalize shiftToTargetExponent Format.binary64 r ((p : Int) - 1074) .exact = shifted at *
  obtain ⟨e, exponent⟩ := shifted
  dsimp only at hmantissa hexponent ⊢
  unfold carried unpacked
  simp only [hmantissa, hexponent]
  split <;> rfl


theorem log2_units (hm : 0 < m) (q : Nat) : (units m q).log2 = m.log2 + q := by
  have hne : m ≠ 0 := Nat.pos_iff_ne_zero.mp hm
  have hpow := Nat.two_pow_pos q
  refine (Nat.log2_eq_iff (units_pos hm).ne').mpr ⟨?_, ?_⟩
  · rw [Nat.pow_add]
    exact Nat.mul_le_mul_right _ (Nat.log2_self_le hne)
  · rw [Nat.add_right_comm, Nat.pow_add]
    exact Nat.mul_lt_mul_of_pos_right Nat.lt_log2_self hpow

/-- **The machine rounds a magnitude as its quotient by the last place is rounded**, with a carry
out of the significand. -/
theorem round_eq (hm : 0 < m) (q : Nat) :
    UnpackedFloat.round Format.binary64 (signOf negative) m ((q : Int) - 1074) =
      (carried negative (roundQuotient (units m q) (2 ^ scaleOf (units m q)))
        (scaleOf (units m q))).unpacked := by
  have hscale : scaleOf (units m q) = m.log2 + q - 52 := by
    unfold scaleOf
    rw [log2_units hm]
  unfold UnpackedFloat.round decreaseExponent
  dsimp only
  rw [targetExponent_eq, hscale]
  have hamount : ((q : Int) - 1074 - (((m.log2 + q - 52 : Nat) : Int) - 1074)).toNat =
      q - (m.log2 + q - 52) := by omega
  -- The significand is first written with as many places as the target has.
  obtain ⟨d, hd⟩ : ∃ d, q - (m.log2 + q - 52) = d := ⟨_, rfl⟩
  have hlow : (q : Int) - 1074 - (d : Nat) = ((q - d : Nat) : Int) - 1074 := by omega
  have hlog : (units m d).log2 + (q - d) - 52 = m.log2 + q - 52 := by
    rw [log2_units hm]
    omega
  have hsame : units (units m d) (q - d) = units m q := by
    unfold units
    rw [Nat.mul_assoc, Nat.pow_eq, Nat.pow_eq, Nat.pow_eq, ← Nat.pow_add]
    congr 2
    omega
  have hwrite : m <<< d = units m d := Nat.shiftLeft_eq m d
  rw [hamount, hd, hlow, hwrite, roundWithAccuracy_eq (by omega), hlog]
  congr 2
  rw [← hsame, ← roundQuotient_mul_right _ _ (Nat.two_pow_pos (q - d)), ← Nat.pow_add]
  congr 2
  omega


/-! ## 3. Rounding to a double -/

section Nearest

variable {v : Nat}

/-- The significand and the scale that a magnitude is rounded to, if the scale had no largest
value. -/
theorem carried_parts (hv : 0 < v) (negative : Bool) : ∃ m p, 0 < m ∧ m < 2 ^ 53 ∧
    (p = 0 ∨ 2 ^ 52 ≤ m) ∧
    carried negative (roundQuotient v (2 ^ scaleOf v)) (scaleOf v) = .finite negative m p ∧
    p * 2 ^ 52 + m = scaleOf v * 2 ^ 52 + roundQuotient v (2 ^ scaleOf v) := by
  have hne : v ≠ 0 := Nat.pos_iff_ne_zero.mp hv
  have hupper := roundQuotient_le_succ v (2 ^ scaleOf v)
  have hlower := le_roundQuotient v (2 ^ scaleOf v)
  have hlt : v / 2 ^ scaleOf v < 2 ^ 53 := div_lt_of_log2 v (by unfold scaleOf; omega)
  have hnormal : scaleOf v = 0 ∨ 2 ^ 52 ≤ v / 2 ^ scaleOf v := by
    refine (Nat.eq_zero_or_pos (scaleOf v)).imp_right fun hpos => ?_
    have hlog : 52 + scaleOf v = v.log2 := by
      unfold scaleOf at hpos ⊢
      omega
    rw [Nat.le_div_iff_mul_le (Nat.two_pow_pos _), ← Nat.pow_add, hlog]
    exact Nat.log2_self_le hne
  have hpos : 0 < roundQuotient v (2 ^ scaleOf v) := by
    rcases hnormal with h | h
    · rw [h, Nat.pow_zero, Nat.div_one] at hlower
      rw [h, Nat.pow_zero]
      omega
    · omega
  unfold carried
  generalize roundQuotient v (2 ^ scaleOf v) = r at *
  by_cases hr : r < 2 ^ 53
  · rw [if_pos hr]
    exact ⟨r, scaleOf v, hpos, hr, hnormal.imp_right (·.trans hlower), rfl, rfl⟩
  · rw [if_neg hr]
    exact ⟨2 ^ 52, scaleOf v + 1, by decide, by decide, .inr (Nat.le_refl _), rfl, by omega⟩

theorem ofModel_pack_of_isParts (h : IsParts m p) :
    Float.ofModel (Float.Model.pack (Binary64.finite negative m p).unpacked) =
      (Binary64.finite negative m p).toFloat := by
  have hpack := ofModel_pack (Binary64.finite negative m p).toFloat
  rwa [ofFloat_toFloat h] at hpack

/-- A scale beyond the largest one is packed to infinity. -/
theorem ofModel_pack_of_lt (hm : 0 < m) (hp : 2045 < p) :
    Float.ofModel (Float.Model.pack (Binary64.finite negative m p).unpacked) =
      (Binary64.infinite negative).toFloat := by
  have hbias : Format.binary64.exponentBias = 1023 := by decide
  have hinfinity : UnpackedFloat.pack Format.binary64 (Binary64.finite negative m p).unpacked =
      packedInfinity Format.binary64 (signOf negative) := by
    rw [unpacked_finite hm]
    simp only [UnpackedFloat.pack, hbias]
    rw [if_pos (by omega)]
  unfold Float.Model.pack
  simp only [hinfinity]
  cases negative <;> rfl

/-- **The nearest double is the rounded significand at its scale**, or infinity if there is no such
scale. -/
theorem nearest_of_carried (hv : 0 < v) (negative : Bool) : ∃ m p, 0 < m ∧
    carried negative (roundQuotient v (2 ^ scaleOf v)) (scaleOf v) = .finite negative m p ∧
    (IsParts m p ∧ nearest negative v 1 = .finite negative m p ∨
      2045 < p ∧ nearest negative v 1 = .infinite negative) := by
  obtain ⟨m, p, hm, hlt, hnormal, hcarried, hbits⟩ := carried_parts hv negative
  have hnearest : nearest negative v 1 =
      ofMagnitudeBits negative (min (p * 2 ^ 52 + m) infinityBits) := by
    unfold nearest magnitudeBits
    simp only [Nat.div_one, Nat.one_mul, Nat.pow_eq, hbits]
  refine ⟨m, p, hm, hcarried, ?_⟩
  rw [hnearest]
  rcases Nat.lt_or_ge 2045 p with hp | hp
  · have hmin : min (p * 2 ^ 52 + m) infinityBits = infinityBits := by
      refine Nat.min_eq_right ?_
      unfold infinityBits
      simp only [Nat.pow_eq]
      omega
    rw [hmin]
    exact .inr ⟨hp, rfl⟩
  · have hparts : IsParts m p := ⟨hlt, hnormal, hp⟩
    have hmin : min (p * 2 ^ 52 + m) infinityBits = p * 2 ^ 52 + m :=
      magnitudeBits_eq (Nat.le_of_lt hlt) hp
    rw [hmin]
    exact .inl ⟨hparts, ofMagnitudeBits_eq hparts⟩

/-- **What is rounded to the nearest double**: a finite one that is not zero, or infinity. -/
theorem nearest_cases (hv : 0 < v) (negative : Bool) :
    (∃ m p, IsParts m p ∧ 0 < m ∧ nearest negative v 1 = .finite negative m p) ∨
      nearest negative v 1 = .infinite negative := by
  obtain ⟨m, p, hm, -, ⟨hparts, h⟩ | ⟨-, h⟩⟩ := nearest_of_carried hv negative
  · exact .inl ⟨m, p, hparts, hm, h⟩
  · exact .inr h

/-- **The machine rounds to the nearest double.** -/
theorem ofModel_pack_round (negative : Bool) (hm : 0 < m) (q : Nat) :
    Float.ofModel (Float.Model.pack
        (UnpackedFloat.round Format.binary64 (signOf negative) m ((q : Int) - 1074))) =
      (nearest negative (units m q) 1).toFloat := by
  obtain ⟨m', p, hm', hcarried, h⟩ := nearest_of_carried (units_pos (p := q) hm) negative
  rw [round_eq hm, hcarried]
  rcases h with ⟨hparts, h⟩ | ⟨hp, h⟩
  · rw [h, ofModel_pack_of_isParts hparts]
  · rw [h, ofModel_pack_of_lt hm' hp]

theorem ofFloat_infinite (negative : Bool) :
    ofFloat (Binary64.infinite negative).toFloat = .infinite negative := by
  cases negative <;> rfl

/-- What is rounded to the nearest double is found again in it. -/
theorem ofFloat_nearest (hv : 0 < v) (negative : Bool) :
    ofFloat (nearest negative v 1).toFloat = nearest negative v 1 := by
  rcases nearest_cases hv negative with ⟨m, p, hparts, -, h⟩ | h <;> rw [h]
  · exact ofFloat_toFloat hparts
  · exact ofFloat_infinite negative

/-- A magnitude that some double has is rounded to that one. -/
theorem nearest_units (h : IsParts m p) (negative : Bool) :
    nearest negative (units m p) 1 = .finite negative m p := by
  refine nearest_eq h Nat.one_pos ((encloses_div_iff Nat.one_pos).mpr ?_)
  have hunits : 4 * units m p = 4 * m * 2 ^ p := (Nat.mul_assoc 4 m (2 ^ p)).symm
  have hpow : 0 < 2 ^ p := Nat.two_pow_pos p
  rw [hunits, Nat.mul_one]
  rcases Nat.eq_zero_or_pos m with rfl | hm
  · simp [Decimal.lowerEnd]
  · have hlow := lowerEnd_lt p hm
    have hhigh : 4 * m < Decimal.upperEnd m := by
      unfold Decimal.upperEnd
      omega
    split
    · exact ⟨Nat.mul_le_mul_right _ hlow.le, Nat.mul_le_mul_right _ hhigh.le⟩
    · exact ⟨Nat.mul_lt_mul_of_pos_right hlow hpow, Nat.mul_lt_mul_of_pos_right hhigh hpow⟩

end Nearest

end TreeScript.Binary64
