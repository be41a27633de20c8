import TreeScript.Proofs.Binary64

/-!
# What the machine computes with

The operations on doubles are defined on numbers without a format: a sign, a natural number and an
exponent.  `unpack_eq` says that the number without format of a double is made of the parts that
`Binary64.ofFloat` takes it into.  So comparisons of doubles are comparisons of their exact values
(`lt_iff`, `le_iff`), and the equality of the machine is the equality of numbers (`beq_iff`).
-/

namespace TreeScript.Binary64

open Float.Model Float.Model.UnpackedFloat

/-! ## 1. Parts and fields -/

/-- A sign. -/
def signOf (negative : Bool) : Sign := if negative then .negative else .positive

/-- The number without format that parts stand for. -/
def unpacked : Binary64 → UnpackedFloat
  | .nan => .notANumber
  | .infinite negative => .infinity (signOf negative)
  | .finite negative m p =>
    if h : m = 0 then .zero (signOf negative)
    else .finite (signOf negative) m ((p : Int) - 1074) (Nat.pos_of_ne_zero h)

theorem unpacked_zero (negative : Bool) (p : Nat) :
    (Binary64.finite negative 0 p).unpacked = .zero (signOf negative) := rfl

theorem unpacked_finite {negative : Bool} {m p : Nat} (hm : 0 < m) :
    (Binary64.finite negative m p).unpacked = .finite (signOf negative) m ((p : Int) - 1074) hm :=
  dif_neg (Nat.pos_iff_ne_zero.mp hm)

section Fields

variable (b : UInt64)

theorem toNat_exponent :
    (@unpackExponent Format.binary64 b.toBitVec).toNat = b.toNat / 2 ^ 52 % 2 ^ 11 := by
  simp only [unpackExponent, BitVec.toNat_cast, BitVec.extractLsb_toNat, Nat.shiftRight_eq_div_pow]
  rfl

theorem toNat_mantissa :
    (@unpackMantissa Format.binary64 b.toBitVec).toNat = b.toNat % 2 ^ 52 := by
  simp only [unpackMantissa, BitVec.toNat_cast, BitVec.extractLsb_toNat, Nat.shiftRight_eq_div_pow]
  simp

theorem ofBitVec_sign : Sign.ofBitVec (@unpackSign Format.binary64 b.toBitVec) =
    signOf (decide (2 ^ 63 ≤ b.toNat)) := by
  have hsign : (@unpackSign Format.binary64 b.toBitVec).toNat = b.toNat / 2 ^ 63 % 2 := by
    simp only [unpackSign, BitVec.toNat_cast, BitVec.extractLsb_toNat, Nat.shiftRight_eq_div_pow]
    rfl
  have hlt := b.toNat_lt
  unfold Sign.ofBitVec signOf
  by_cases h : 2 ^ 63 ≤ b.toNat
  · have hone : @unpackSign Format.binary64 b.toBitVec ≠ 0#1 := by
      intro hzero
      rw [hzero] at hsign
      have : (0#1).toNat = 0 := rfl
      omega
    rw [if_neg hone, if_pos (decide_eq_true h)]
  · have hzero : @unpackSign Format.binary64 b.toBitVec = 0#1 :=
      BitVec.eq_of_toNat_eq (by rw [hsign, BitVec.toNat_zero]; omega)
    rw [if_pos hzero, if_neg (by simpa using h)]

theorem exponent_eq_iff (v : BitVec 11) :
    @unpackExponent Format.binary64 b.toBitVec = v ↔ b.toNat / 2 ^ 52 % 2 ^ 11 = v.toNat := by
  rw [← BitVec.toNat_inj, toNat_exponent]

theorem mantissa_eq_zero_iff :
    @unpackMantissa Format.binary64 b.toBitVec = 0#52 ↔ b.toNat % 2 ^ 52 = 0 := by
  rw [← BitVec.toNat_inj, toNat_mantissa]
  rfl

/-- The bits of a word, read in both ways. -/
theorem unpack_word : UnpackedFloat.unpack Format.binary64 b.toBitVec =
    (ofMagnitudeBits (decide (2 ^ 63 ≤ b.toNat)) (b.toNat % 2 ^ 63)).unpacked := by
  have hbias : (Format.binary64.exponentBias : Int) = 1023 := by decide
  have hones : @unpackExponent Format.binary64 b.toBitVec = -1#11 ↔
      b.toNat / 2 ^ 52 % 2 ^ 11 = 2047 := exponent_eq_iff b (-1#11)
  have hnone : @unpackExponent Format.binary64 b.toBitVec = 0#11 ↔
      b.toNat / 2 ^ 52 % 2 ^ 11 = 0 := exponent_eq_iff b 0#11
  have hzero := mantissa_eq_zero_iff b
  have hexponent : b.toNat % 2 ^ 63 / 2 ^ 52 = b.toNat / 2 ^ 52 % 2 ^ 11 := by omega
  have hfraction : b.toNat % 2 ^ 63 % 2 ^ 52 = b.toNat % 2 ^ 52 := by omega
  unfold UnpackedFloat.unpack ofMagnitudeBits
  simp only [Nat.pow_eq, hexponent, hfraction]
  rw [ofBitVec_sign, hbias]
  by_cases hall : b.toNat / 2 ^ 52 % 2 ^ 11 = 2047
  · rw [if_pos (hones.mpr hall), hall]
    by_cases hm : b.toNat % 2 ^ 52 = 0
    · rw [if_pos (hzero.mpr hm), if_neg (by decide), if_neg (by decide), if_pos hm]
      rfl
    · rw [if_neg (mt hzero.mp hm), if_neg (by decide), if_neg (by decide), if_neg hm]
      rfl
  rw [if_neg (mt hones.mp hall)]
  by_cases hsmall : b.toNat / 2 ^ 52 % 2 ^ 11 = 0
  · rw [if_pos (hnone.mpr hsmall), if_pos hsmall]
    by_cases hm : b.toNat % 2 ^ 52 = 0
    · rw [dif_pos (hzero.mpr hm), hm]
      rfl
    · rw [dif_neg (mt hzero.mp hm), unpacked_finite (Nat.pos_of_ne_zero hm)]
      simp only [UnpackedFloat.finite.injEq, toNat_mantissa, toNat_exponent, hsmall]
      exact ⟨trivial, trivial, rfl⟩
  · have hone : (1#1 ++ @unpackMantissa Format.binary64 b.toBitVec).toNat =
        2 ^ 52 + b.toNat % 2 ^ 52 := by
      rw [BitVec.toNat_append, Nat.shiftLeft_eq, toNat_mantissa]
      exact (Nat.two_pow_add_eq_or_of_lt (Nat.mod_lt _ (by decide : 0 < 2 ^ 52)) 1).symm
    have hpos : 0 < 2 ^ 52 + b.toNat % 2 ^ 52 := by omega
    rw [if_neg (mt hnone.mp hsmall), if_neg hsmall, if_pos (by omega), unpacked_finite hpos]
    simp only [UnpackedFloat.finite.injEq, hone, toNat_exponent]
    exact ⟨trivial, trivial, by omega⟩

end Fields

/-- **The number without format of a double** is made of its parts. -/
theorem unpack_eq (x : Float) : x.toModel.unpack = (ofFloat x).unpacked := by
  have hunpack : x.toModel.unpack = UnpackedFloat.unpack Format.binary64 x.toBits.toBitVec := rfl
  rw [hunpack, unpack_word]
  rfl

/-- A double is packed from the number without format of its parts. -/
theorem ofModel_pack (x : Float) : Float.ofModel (Float.Model.pack (ofFloat x).unpacked) = x := by
  rw [← unpack_eq]
  exact ofBits_toBits x

/-! ## 2. Comparisons -/

/-- A magnitude with a sign. -/
def signed (negative : Bool) (magnitude : Nat) : Int :=
  if negative then -magnitude else magnitude

theorem natAbs_signed (negative : Bool) (v : Nat) : (signed negative v).natAbs = v := by
  unfold signed
  split <;> omega

/-- The exact value of a finite double, in units of the smallest one. -/
def value? : Binary64 → Option Int
  | .finite negative m p => some (signed negative (units m p))
  | _ => none

section Compare

variable {m p m' p' : Nat}

theorem units_pos (hm : 0 < m) : 0 < units m p := Nat.mul_pos hm (Nat.two_pow_pos p)

/-- A larger scale stands for a larger magnitude. -/
theorem units_lt_of_scale_lt (h : IsParts m p) (h' : IsParts m' p') (hlt : p < p') :
    units m p < units m' p' := by
  have hm' : 2 ^ 52 ≤ m' := h'.normal.resolve_left (by omega)
  obtain ⟨k, rfl⟩ : ∃ k, p' = p + 1 + k := ⟨p' - (p + 1), by omega⟩
  calc units m p < 2 ^ 53 * 2 ^ p := Nat.mul_lt_mul_of_pos_right h.lt (Nat.two_pow_pos p)
    _ = 2 ^ 52 * 2 ^ (p + 1) := by ring
    _ ≤ 2 ^ 52 * 2 ^ (p + 1 + k) :=
      Nat.mul_le_mul_left _ (Nat.pow_le_pow_right (by decide) (by omega))
    _ ≤ units m' (p + 1 + k) := Nat.mul_le_mul_right _ hm'

/-- Magnitudes are compared by their scales first, and then by their significands. -/
theorem compare_units (h : IsParts m p) (h' : IsParts m' p') :
    compare (units m p) (units m' p') =
      (compare ((p : Int) - 1074) ((p' : Int) - 1074)).then (compare m m') := by
  rcases Nat.lt_trichotomy p p' with hlt | rfl | hgt
  · have hscale : compare ((p : Int) - 1074) ((p' : Int) - 1074) = .lt :=
      compare_lt_iff_lt.mpr (by omega)
    rw [hscale, compare_lt_iff_lt.mpr (units_lt_of_scale_lt h h' hlt)]
    rfl
  · have hscale : compare ((p : Int) - 1074) ((p : Int) - 1074) = .eq := compare_eq_iff_eq.mpr rfl
    rw [hscale, Ordering.then]
    have hpow : 0 < 2 ^ p := Nat.two_pow_pos p
    rcases Nat.lt_trichotomy m m' with hm | rfl | hm
    · rw [compare_lt_iff_lt.mpr hm]
      exact compare_lt_iff_lt.mpr (Nat.mul_lt_mul_of_pos_right hm hpow)
    · rw [compare_eq_iff_eq.mpr rfl, compare_eq_iff_eq.mpr rfl]
    · rw [compare_gt_iff_gt.mpr hm]
      exact compare_gt_iff_gt.mpr (Nat.mul_lt_mul_of_pos_right hm hpow)
  · have hscale : compare ((p : Int) - 1074) ((p' : Int) - 1074) = .gt :=
      compare_gt_iff_gt.mpr (by omega)
    rw [hscale, compare_gt_iff_gt.mpr (units_lt_of_scale_lt h' h hgt)]
    rfl

end Compare

theorem compare_natCast (a b : Nat) : compare (a : Int) b = compare a b := by
  rcases Nat.lt_trichotomy a b with h | rfl | h
  · rw [compare_lt_iff_lt.mpr h, compare_lt_iff_lt.mpr (Int.ofNat_lt.mpr h)]
  · rw [compare_eq_iff_eq.mpr rfl, compare_eq_iff_eq.mpr rfl]
  · rw [compare_gt_iff_gt.mpr h, compare_gt_iff_gt.mpr (Int.ofNat_lt.mpr h)]

/-- Numbers are compared in the other order with their signs changed. -/
theorem compare_neg (a b : Int) : compare (-a) (-b) = (compare a b).swap := by
  rcases Int.lt_trichotomy a b with h | rfl | h
  · rw [compare_lt_iff_lt.mpr h, compare_gt_iff_gt.mpr (by omega)]
    rfl
  · rw [compare_eq_iff_eq.mpr rfl, compare_eq_iff_eq.mpr rfl]
    rfl
  · rw [compare_gt_iff_gt.mpr h, compare_lt_iff_lt.mpr (by omega)]
    rfl

/-- The comparison of two finite doubles, by their signs. -/
theorem compare_unpacked {negative negative' : Bool} {m p m' p' : Nat} (h : IsParts m p)
    (h' : IsParts m' p') :
    UnpackedFloat.compare (Binary64.finite negative m p).unpacked
        (Binary64.finite negative' m' p').unpacked =
      some (compare (signed negative (units m p)) (signed negative' (units m' p'))) := by
  have hzero (p : Nat) : units 0 p = 0 := Nat.zero_mul _
  have hcompare := compare_units h h'
  rcases Nat.eq_zero_or_pos m with rfl | hm <;> rcases Nat.eq_zero_or_pos m' with rfl | hm'
  · simp only [unpacked_zero, UnpackedFloat.compare, hzero]
    cases negative <;> cases negative' <;> rfl
  · have hpos := units_pos (p := p') hm'
    rw [unpacked_zero, unpacked_finite hm', hzero]
    cases negative' with
    | false => exact congrArg some (compare_lt_iff_lt.mpr (by simp [signed]; omega)).symm
    | true => exact congrArg some (compare_gt_iff_gt.mpr (by simp [signed]; omega)).symm
  · have hpos := units_pos (p := p) hm
    rw [unpacked_zero, unpacked_finite hm, hzero]
    cases negative with
    | false => exact congrArg some (compare_gt_iff_gt.mpr (by simp [signed]; omega)).symm
    | true => exact congrArg some (compare_lt_iff_lt.mpr (by simp [signed]; omega)).symm
  · have hpos := units_pos (p := p) hm
    have hpos' := units_pos (p := p') hm'
    rw [unpacked_finite hm, unpacked_finite hm']
    cases negative <;> cases negative'
    · simp only [signed, Bool.false_eq_true, if_false, compare_natCast, hcompare]
      rfl
    · exact congrArg some (compare_gt_iff_gt.mpr (by simp [signed]; omega)).symm
    · exact congrArg some (compare_lt_iff_lt.mpr (by simp [signed]; omega)).symm
    · simp only [signed, if_true, compare_neg, compare_natCast, hcompare]
      rfl

variable {x y : Float} {a b : Int}

/-- A double with a value is made of parts. -/
theorem exists_parts_of_value (hx : (ofFloat x).value? = some a) : ∃ negative m p,
    ofFloat x = .finite negative m p ∧ IsParts m p ∧ a = signed negative (units m p) := by
  cases hparts : ofFloat x with
  | nan => rw [hparts] at hx; cases hx
  | infinite negative => rw [hparts] at hx; cases hx
  | finite negative m p =>
    rw [hparts] at hx
    exact ⟨negative, m, p, rfl, isParts_of_ofFloat hparts, (Option.some.inj hx).symm⟩

/-- **Doubles are compared by their exact values.** -/
theorem compare_eq (hx : (ofFloat x).value? = some a) (hy : (ofFloat y).value? = some b) :
    x.toModel.compare y.toModel = some (compare a b) := by
  obtain ⟨negative, m, p, hpx, h, rfl⟩ := exists_parts_of_value hx
  obtain ⟨negative', m', p', hpy, h', rfl⟩ := exists_parts_of_value hy
  unfold Float.Model.compare
  rw [unpack_eq, unpack_eq, hpx, hpy]
  exact compare_unpacked h h'

theorem lt_iff (hx : (ofFloat x).value? = some a) (hy : (ofFloat y).value? = some b) :
    x < y ↔ a < b := by
  have hlt : x < y ↔ decide ((x.toModel.compare y.toModel == some .lt) = true) = true := Iff.rfl
  rw [hlt, decide_eq_true_iff, compare_eq hx hy, beq_iff_eq, Option.some_inj, compare_lt_iff_lt]

theorem le_iff (hx : (ofFloat x).value? = some a) (hy : (ofFloat y).value? = some b) :
    x ≤ y ↔ a ≤ b := by
  have hle : x ≤ y ↔ decide ((x.toModel.compare y.toModel).any (·.isLE) = true) = true := Iff.rfl
  rw [hle, decide_eq_true_iff, compare_eq hx hy, Option.any_some, Int.isLE_compare]

/-- A double is finite if it has a value. -/
theorem isFinite_eq (x : Float) : x.isFinite = (ofFloat x).value?.isSome := by
  have hfinite : x.isFinite = x.toModel.unpack.isFinite := rfl
  rw [hfinite, unpack_eq]
  cases ofFloat x with
  | nan => rfl
  | infinite negative => rfl
  | finite negative m p =>
    rcases Nat.eq_zero_or_pos m with rfl | hm
    · rfl
    · rw [unpacked_finite hm]
      rfl

/-! ## 3. Equality -/

/-- **Doubles that are equal as numbers**: finite ones with the same exact value, so that the two
zeros are equal, or infinite ones with the same sign.  NaN is equal to nothing. -/
def Equal : Binary64 → Binary64 → Prop
  | .finite negative m p, .finite negative' m' p' =>
    signed negative (units m p) = signed negative' (units m' p')
  | .infinite negative, .infinite negative' => negative = negative'
  | _, _ => False

section Equal

variable {a b c : Binary64}

theorem Equal.symm (h : a.Equal b) : b.Equal a := by
  cases a <;> cases b <;> first | exact h.elim | exact Eq.symm h

theorem Equal.trans (h : a.Equal b) (h' : b.Equal c) : a.Equal c := by
  cases a <;> cases b <;> cases c <;> first | exact h.elim | exact h'.elim | exact Eq.trans h h'

theorem equal_self_iff : a.Equal a ↔ a ≠ .nan := by
  cases a <;> simp [Equal]

end Equal

theorem compare_notANumber (u : UnpackedFloat) : u.compare .notANumber = none := by
  cases u <;> rfl

/-- An infinity is equal to itself and to nothing else, on either side. -/
theorem compare_infinity (u : UnpackedFloat) (s : Sign) :
    (u.compare (.infinity s) = some .eq ↔ u = .infinity s) ∧
      (UnpackedFloat.compare (.infinity s) u = some .eq ↔ u = .infinity s) := by
  cases u with
  | infinity s' => cases s <;> cases s' <;> simp [UnpackedFloat.compare] <;> decide
  | notANumber => simp [UnpackedFloat.compare]
  | zero s' => cases s <;> simp [UnpackedFloat.compare]
  | finite s' m e hm => cases s <;> cases s' <;> simp [UnpackedFloat.compare]

theorem unpacked_eq_infinity_iff (a : Binary64) (negative : Bool) :
    a.unpacked = .infinity (signOf negative) ↔ a = .infinite negative := by
  cases a with
  | nan => simp [unpacked]
  | infinite negative' => cases negative <;> cases negative' <;> simp [unpacked, signOf]
  | finite negative' m p =>
    rcases Nat.eq_zero_or_pos m with rfl | hm
    · simp [unpacked_zero]
    · simp [unpacked_finite hm]

theorem isNaN_iff (x : Float) : x.isNaN = true ↔ ofFloat x = .nan := by
  have hnan : x.isNaN = x.toModel.unpack.isNaN := rfl
  rw [hnan, unpack_eq]
  cases ofFloat x with
  | nan => simp [unpacked, UnpackedFloat.isNaN]
  | infinite negative => simp [unpacked, UnpackedFloat.isNaN]
  | finite negative m p =>
    rcases Nat.eq_zero_or_pos m with rfl | hm
    · simp [unpacked_zero, UnpackedFloat.isNaN]
    · simp [unpacked_finite hm, UnpackedFloat.isNaN]

/-- **The equality of the machine is that of numbers.** -/
theorem beq_iff (x y : Float) : (x == y) = true ↔ (ofFloat x).Equal (ofFloat y) := by
  have hbeq : (x == y) = (x.toModel.unpack.compare y.toModel.unpack == some .eq) := rfl
  rw [hbeq, unpack_eq, unpack_eq, beq_iff_eq]
  cases hx : ofFloat x with
  | nan => simp [unpacked, UnpackedFloat.compare, Equal]
  | infinite negative =>
    have hinfinite : (Binary64.infinite negative).unpacked = .infinity (signOf negative) := rfl
    rw [hinfinite, (compare_infinity _ _).2, unpacked_eq_infinity_iff]
    cases ofFloat y <;> simp [Equal, eq_comm]
  | finite negative m p =>
    cases hy : ofFloat y with
    | nan =>
      have hnan : Binary64.nan.unpacked = .notANumber := rfl
      simp [hnan, compare_notANumber, Equal]
    | infinite negative' =>
      have hinfinite : (Binary64.infinite negative').unpacked = .infinity (signOf negative') := rfl
      rw [hinfinite, (compare_infinity _ _).1, unpacked_eq_infinity_iff]
      simp [Equal]
    | finite negative' m' p' =>
      rw [compare_unpacked (isParts_of_ofFloat hx) (isParts_of_ofFloat hy), Option.some_inj,
        compare_eq_iff_eq, Equal]

end TreeScript.Binary64
