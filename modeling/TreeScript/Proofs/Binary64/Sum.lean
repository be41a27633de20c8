import TreeScript.Proofs.Binary64.MachineRounding

/-!
# Sums of doubles, and doubles as integers

The sum of two finite doubles is the double nearest to the sum of their exact values: `value_add`.
An integer of at most 53 bits is a double, so that nothing is rounded when a machine word below
`2^53` becomes one (`ofFloat_toFloat_word`, `value_nearestTo_of_lt`); and a double becomes a machine
word by dropping its fraction (`toNat_toUInt64`).
-/

namespace TreeScript.Binary64

open Float.Model Float.Model.UnpackedFloat

variable {negative : Bool} {m p : Nat}

/-! ## 1. Sums -/

/-- The double nearest to a number. -/
def nearestTo (a : Int) : Binary64 := nearest (decide (a < 0)) a.natAbs 1

theorem nearestTo_signed (h : IsParts m p) (hm : 0 < m) :
    nearestTo (signed negative (units m p)) = .finite negative m p := by
  have hpos : 0 < units m p := units_pos hm
  have hsign : decide (signed negative (units m p) < 0) = negative := by
    cases negative
    · exact decide_eq_false (by simp [signed])
    · exact decide_eq_true (by simpa [signed] using hpos)
  unfold nearestTo
  rw [natAbs_signed, hsign, nearest_units h]

theorem nearestTo_zero : nearestTo 0 = .finite false 0 0 := by
  have hparts : IsParts 0 0 := ⟨by decide, .inl rfl, by decide⟩
  have hzero : nearestTo 0 = nearest false (units 0 0) 1 := rfl
  rw [hzero, nearest_units hparts]

theorem ofFloat_zero (negative : Bool) :
    ofFloat (Float.ofModel (Float.Model.pack (.zero (signOf negative)))) = .finite negative 0 0 := by
  have hparts : IsParts 0 0 := ⟨by decide, .inl rfl, by decide⟩
  rw [← unpacked_zero negative 0, ofModel_pack_of_isParts hparts, ofFloat_toFloat hparts]

/-- The machine rounds a number with a sign to the double nearest to it. -/
theorem ofFloat_normalize (c : Int) (q : Nat) :
    ofFloat (Float.ofModel (Float.Model.pack
        (UnpackedFloat.normalize Format.binary64 c ((q : Int) - 1074) .positive))) =
      nearestTo (c * (2 ^ q : Nat)) := by
  have hpow : (0 : Int) < (2 ^ q : Nat) := by positivity
  have habs : (c * (2 ^ q : Nat)).natAbs = units c.natAbs q := by
    rw [Int.natAbs_mul, Int.natAbs_natCast]
    rfl
  rcases Int.lt_trichotomy c 0 with hc | rfl | hc
  · have hneg : c * (2 ^ q : Nat) < 0 := Int.mul_neg_of_neg_of_pos hc hpow
    have hnat : (-c).toNat = c.natAbs := by omega
    unfold UnpackedFloat.normalize nearestTo
    rw [compare_lt_iff_lt.mpr hc, habs, decide_eq_true hneg, hnat]
    exact (congrArg ofFloat (ofModel_pack_round true (by omega) q)).trans
      (ofFloat_nearest (units_pos (by omega)) true)
  · unfold UnpackedFloat.normalize
    rw [compare_eq_iff_eq.mpr rfl, Int.zero_mul, nearestTo_zero]
    exact ofFloat_zero false
  · have hpos : ¬c * (2 ^ q : Nat) < 0 := Int.not_lt.mpr (Int.mul_pos hc hpow).le
    have hnat : c.toNat = c.natAbs := by omega
    unfold UnpackedFloat.normalize nearestTo
    rw [compare_gt_iff_gt.mpr hc, habs, decide_eq_false hpos, hnat]
    exact (congrArg ofFloat (ofModel_pack_round false (by omega) q)).trans
      (ofFloat_nearest (units_pos (by omega)) false)

/-- A number written at a smaller exponent. -/
theorem apply_shiftLeft {q : Nat} (hq : q ≤ p) (negative : Bool) (m : Nat) :
    (signOf negative).apply ((m <<< (p - q) : Nat) : Int) * (2 ^ q : Nat) =
      signed negative (units m p) := by
  have hunits : m <<< (p - q) * 2 ^ q = units m p := by
    rw [Nat.shiftLeft_eq, Nat.mul_assoc, ← Nat.pow_add, Nat.sub_add_cancel hq]
    rfl
  rw [← hunits]
  cases negative <;> simp [signOf, Sign.apply, signed]

/-- The sum of two finite doubles that are not zero. -/
theorem ofFloat_add_unpacked {negative' : Bool} {m' p' : Nat} (hm : 0 < m) (hm' : 0 < m') :
    ofFloat (Float.ofModel (Float.Model.pack (UnpackedFloat.add Format.binary64
        (Binary64.finite negative m p).unpacked (Binary64.finite negative' m' p').unpacked))) =
      nearestTo (signed negative (units m p) + signed negative' (units m' p')) := by
  have hsmaller : min ((p : Int) - 1074) ((p' : Int) - 1074) = ((min p p' : Nat) : Int) - 1074 := by
    omega
  have hamount : ((p : Int) - 1074 - (((min p p' : Nat) : Int) - 1074)).toNat = p - min p p' := by
    omega
  have hamount' : ((p' : Int) - 1074 - (((min p p' : Nat) : Int) - 1074)).toNat = p' - min p p' := by
    omega
  rw [unpacked_finite hm, unpacked_finite hm']
  unfold UnpackedFloat.add decreaseExponent
  dsimp only
  rw [hsmaller, hamount, hamount', ofFloat_normalize, Int.add_mul,
    apply_shiftLeft (Nat.min_le_left p p'), apply_shiftLeft (Nat.min_le_right p p')]

/-- **The sum of the parts of two finite doubles.** -/
theorem value_add_unpacked {negative' : Bool} {m' p' : Nat} (h : IsParts m p) (h' : IsParts m' p') :
    (ofFloat (Float.ofModel (Float.Model.pack (UnpackedFloat.add Format.binary64
        (Binary64.finite negative m p).unpacked
        (Binary64.finite negative' m' p').unpacked)))).value? =
      (nearestTo (signed negative (units m p) + signed negative' (units m' p'))).value? := by
  have hzero (negative : Bool) (p : Nat) : signed negative (units 0 p) = 0 := by
    have hunits : units 0 p = 0 := Nat.zero_mul _
    rw [hunits]
    cases negative <;> rfl
  rcases Nat.eq_zero_or_pos m with rfl | hm <;> rcases Nat.eq_zero_or_pos m' with rfl | hm'
  · have hsum : UnpackedFloat.add Format.binary64 (.zero (signOf negative))
        (.zero (signOf negative')) = .zero (signOf (negative && negative')) := by
      cases negative <;> cases negative' <;> rfl
    rw [unpacked_zero, unpacked_zero, hsum, ofFloat_zero, hzero, hzero, Int.zero_add,
      nearestTo_zero]
    exact congrArg some (hzero (negative && negative') 0)
  · have hsum : UnpackedFloat.add Format.binary64 (.zero (signOf negative))
        (Binary64.finite negative' m' p').unpacked = (Binary64.finite negative' m' p').unpacked := by
      rw [unpacked_finite hm']
      rfl
    rw [unpacked_zero, hsum, ofModel_pack_of_isParts h', ofFloat_toFloat h', hzero, Int.zero_add,
      nearestTo_signed h' hm']
  · have hsum : UnpackedFloat.add Format.binary64 (Binary64.finite negative m p).unpacked
        (.zero (signOf negative')) = (Binary64.finite negative m p).unpacked := by
      rw [unpacked_finite hm]
      rfl
    rw [unpacked_zero, hsum, ofModel_pack_of_isParts h, ofFloat_toFloat h, hzero, Int.add_zero,
      nearestTo_signed h hm]
  · rw [ofFloat_add_unpacked hm hm']

variable {x y : Float} {a b : Int}

theorem add_eq_ofModel (x y : Float) : x + y = Float.ofModel (Float.Model.pack
    (UnpackedFloat.add Format.binary64 x.toModel.unpack y.toModel.unpack)) := rfl

/-- **The sum of two finite doubles is the double nearest to the sum of their values.** -/
theorem value_add (hx : (ofFloat x).value? = some a) (hy : (ofFloat y).value? = some b) :
    (ofFloat (x + y)).value? = (nearestTo (a + b)).value? := by
  obtain ⟨negative, m, p, hpx, h, rfl⟩ := exists_parts_of_value hx
  obtain ⟨negative', m', p', hpy, h', rfl⟩ := exists_parts_of_value hy
  rw [add_eq_ofModel, unpack_eq, unpack_eq, hpx, hpy]
  exact value_add_unpacked h h'

/-- What is not finite stays so in a sum. -/
theorem value_add_eq_none (x : Float) (hy : (ofFloat y).value? = none) :
    (ofFloat (x + y)).value? = none := by
  have hnan : (ofFloat (Float.ofModel (Float.Model.pack .notANumber))).value? = none := rfl
  have hinfinity (sign : Sign) :
      (ofFloat (Float.ofModel (Float.Model.pack (.infinity sign)))).value? = none := by
    cases sign <;> rfl
  rw [add_eq_ofModel, unpack_eq y]
  cases hpy : ofFloat y with
  | nan =>
    cases x.toModel.unpack <;> exact hnan
  | infinite negative =>
    cases x.toModel.unpack with
    | infinity sign =>
      unfold unpacked UnpackedFloat.add
      dsimp only
      split
      · exact hinfinity _
      · exact hnan
    | notANumber => exact hnan
    | zero sign => exact hinfinity _
    | finite sign m e hm => exact hinfinity _
  | finite negative m p => rw [hpy] at hy; cases hy

/-! ## 2. Integers -/

/-- One, with its exponent as a variable: written out, the power is not to be computed. -/
theorem one_eq {s : Nat} (hs : s = 1074) : one = 2 ^ s := by
  unfold one
  rw [← hs, Nat.pow_eq]

theorem pos_one : (0 : Int) < one := Int.natCast_pos.mpr Binary64.one_pos

/-- A number of 53 bits at some scale is made of parts. -/
theorem exists_parts {k s : Nat} (hk : k < 2 ^ 53) (hs : s ≤ 2045) :
    ∃ m p, IsParts m p ∧ units m p = k * 2 ^ s := by
  induction s generalizing k with
  | zero => exact ⟨k, 0, ⟨hk, .inl rfl, by decide⟩, rfl⟩
  | succ s ih =>
    rcases Nat.lt_or_ge k (2 ^ 52) with hlt | hge
    · obtain ⟨m, p, hparts, hunits⟩ := ih (k := 2 * k) (by omega) (by omega)
      refine ⟨m, p, hparts, hunits.trans ?_⟩
      rw [Nat.pow_succ]
      ring
    · exact ⟨k, s + 1, ⟨hk, .inr hge, hs⟩, rfl⟩

/-- **A number of 53 bits is rounded to itself.** -/
theorem value_nearestTo_of_lt {c : Int} {s : Nat} (hc : c.natAbs < 2 ^ 53) (hs : s ≤ 2045) :
    (nearestTo (c * (2 ^ s : Nat))).value? = some (c * (2 ^ s : Nat)) := by
  obtain ⟨m, p, hparts, hunits⟩ := exists_parts hc hs
  have habs : (c * (2 ^ s : Nat)).natAbs = units m p := by
    rw [hunits, Int.natAbs_mul, Int.natAbs_natCast]
  have hvalue : signed (decide (c * (2 ^ s : Nat) < 0)) (units m p) = c * (2 ^ s : Nat) := by
    rw [← habs]
    unfold signed
    split
    · rename_i hneg
      have := of_decide_eq_true hneg
      omega
    · rename_i hneg
      have := of_decide_eq_false (Bool.not_eq_true _ ▸ hneg)
      omega
  unfold nearestTo
  rw [habs, nearest_units hparts]
  exact congrArg some hvalue

/-- What is below zero is not rounded up to it. -/
theorem neg_of_value_nearestTo {c d : Int} (hc : c < 0) (h : (nearestTo c).value? = some d) :
    d < 0 := by
  unfold nearestTo at h
  rw [decide_eq_true hc] at h
  rcases nearest_cases (v := c.natAbs) (by omega) true with ⟨m, p, -, hm, heq⟩ | heq
  · rw [heq] at h
    have hpos : 0 < units m p := units_pos hm
    have hd : -(units m p : Int) = d := Option.some.inj h
    omega
  · rw [heq] at h
    cases h

/-- A machine word as a double. -/
theorem ofFloat_toFloat_word (n : UInt64) : ofFloat n.toFloat = nearestTo (n.toNat * one) := by
  have hword : n.toFloat = Float.ofModel (Float.Model.pack
      (UnpackedFloat.normalize Format.binary64 (n.toNat : Int) (((1074 : Nat) : Int) - 1074)
        .positive)) := rfl
  rw [hword, ofFloat_normalize, one_eq rfl]

/-- A number shifted up and down again. -/
theorem mul_two_pow_div (m p s : Nat) : m * 2 ^ p / 2 ^ s = m * 2 ^ (p - s) / 2 ^ (s - p) := by
  rcases Nat.le_total p s with h | h
  · have hsplit : 2 ^ s = 2 ^ (s - p) * 2 ^ p := by rw [← Nat.pow_add, Nat.sub_add_cancel h]
    rw [hsplit, Nat.mul_div_mul_right _ _ (Nat.two_pow_pos p), Nat.sub_eq_zero_of_le h,
      Nat.pow_zero, Nat.mul_one]
  · have hsplit : 2 ^ p = 2 ^ (p - s) * 2 ^ s := by rw [← Nat.pow_add, Nat.sub_add_cancel h]
    rw [hsplit, ← Nat.mul_assoc, Nat.mul_div_cancel _ (Nat.two_pow_pos s),
      Nat.sub_eq_zero_of_le h, Nat.pow_zero, Nat.div_one]

theorem units_div_one (m p : Nat) : units m p / one = m * 2 ^ (p - 1074) / 2 ^ (1074 - p) := by
  obtain ⟨s, hs⟩ : ∃ s, s = 1074 := ⟨_, rfl⟩
  rw [one_eq hs, ← hs]
  exact mul_two_pow_div m p s

/-- What is left of a significand when the places behind the point are shifted out. -/
theorem roundToInt_eq (negative : Bool) (m p : Nat) :
    roundToInt (signOf negative) m ((p : Int) - 1074) = signed negative (units m p / one) := by
  have hup : ((p : Int) - 1074 - 0).toNat = p - 1074 := by omega
  have hdown : (0 - ((p : Int) - 1074 - (p - 1074 : Nat))).toNat = 1074 - p := by omega
  have hshifted := (isShifted_exact (m <<< (p - 1074))).shiftRight Nat.one_pos (1074 - p)
  have hmantissa := hshifted.mantissa
  rw [Nat.one_mul, Nat.shiftLeft_eq, ← units_div_one] at hmantissa
  unfold roundToInt decreaseExponent shiftToExponent ExtendedMantissa.ofMantissaAndAccuracy
  dsimp only
  rw [hup, hdown, Nat.shiftLeft_eq, hmantissa]
  cases negative <;> rfl

/-- **A double as a machine word**: its fraction is dropped. -/
theorem toNat_toUInt64 (hx : (ofFloat x).value? = some a) (h0 : 0 ≤ a)
    (hlt : a / one < 2 ^ 64) : (x.toUInt64.toNat : Int) = a / one := by
  obtain ⟨negative, m, p, hpx, h, rfl⟩ := exists_parts_of_value hx
  have hwhole : x.toModel.unpack.toInt 0 (UInt64.size - 1) = signed negative (units m p / one) := by
    rw [unpack_eq, hpx]
    rcases Nat.eq_zero_or_pos m with rfl | hm
    · have hzero : units 0 p / one = 0 := by
        unfold units
        rw [Nat.zero_mul, Nat.zero_div]
      rw [hzero]
      cases negative <;> rfl
    · rw [unpacked_finite hm]
      exact roundToInt_eq negative m p
  have hword : x.toUInt64 = UInt64.ofNatClamp (x.toModel.unpack.toInt 0 (UInt64.size - 1)).toNat :=
    rfl
  have hquotient : signed negative (units m p / one) = signed negative (units m p) / one := by
    cases negative with
    | false => rfl
    | true =>
      have hnone : units m p = 0 := by
        simp only [signed, if_true] at h0
        omega
      rw [hnone, Nat.zero_div]
      exact (Int.zero_ediv _).symm
  rw [hword, hwhole, hquotient]
  have hwhole0 : 0 ≤ signed negative (units m p) / one := Int.ediv_nonneg h0 (Int.natCast_nonneg _)
  generalize signed negative (units m p) / one = c at *
  have hsize : UInt64.size = 2 ^ 64 := rfl
  rw [UInt64.ofNatClamp_eq_ofNat _ (by omega), UInt64.toNat_ofNat_of_lt' (by omega)]
  omega

end TreeScript.Binary64
