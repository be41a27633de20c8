import Mathlib
import TreeScript.Binary64

/-!
# The parts of a double determine it

A double and its bits are the same thing, because a double that is no number has one pattern only:
`ofBits_toBits`.  The parts that a finite double is taken into are a significand of at most 53 bits
at the smallest scale that holds it, `IsParts`, and parts of that kind can be put together and taken
apart again.
-/

namespace TreeScript.Binary64

/-! ## 1. The bits of a double -/

section Bits

open Float.Model Float.Model.UnpackedFloat

theorem toBitVec_sign (b : BitVec 1) : (Sign.ofBitVec b).toBitVec = b := by
  rcases BitVec.eq_zero_or_eq_one b with rfl | rfl <;> rfl

/-- Sign, exponent and fraction put together again. -/
theorem packComponents_fields (b : BitVec Format.binary64.numBits) :
    packComponents Format.binary64 (Sign.ofBitVec (unpackSign b)) (unpackExponent b)
      (unpackMantissa b) = b := by
  unfold packComponents
  rw [toBitVec_sign]
  refine BitVec.eq_of_getLsbD_eq fun i hi => ?_
  have hi : i < 64 := hi
  simp only [BitVec.getLsbD_append, unpackSign, unpackExponent, unpackMantissa,
    BitVec.getLsbD_cast, BitVec.getLsbD_extractLsb]
  by_cases h : i < 52
  · simp [h]
  · by_cases h' : i - 52 < 11
    · have hplace : 52 + (i - 52) = i := by omega
      simp [h, h', hplace]
    · obtain rfl : i = 63 := by omega
      rfl

/-- A subnormal double has no exponent in its pattern. -/
theorem pack_subnormal {sign : Sign} {m : Nat} {e : Int} {hpos : 0 < m} (hm : m < 2 ^ 52)
    (he : e = -1074) : UnpackedFloat.pack Format.binary64 (.finite sign m e hpos) =
      packComponents Format.binary64 sign 0#11 (BitVec.ofNat 52 m) := by
  have hbias : Format.binary64.exponentBias = 1023 := by decide
  have hbits : Format.binary64.mantissaBits = 53 := by decide
  have hlog : m.log2 < 52 := (Nat.log2_lt (Nat.pos_iff_ne_zero.mp hpos)).mpr hm
  simp only [UnpackedFloat.pack, hbias, hbits, he]
  rw [if_neg (by decide), if_neg (by omega)]

/-- In the pattern of a normal double the highest bit of the significand is left out. -/
theorem pack_normal {sign : Sign} {m : Nat} {e : Int} {hpos : 0 < m} (hlow : 2 ^ 52 ≤ m)
    (hhigh : m < 2 ^ 53) (he : e ≤ 971) :
    UnpackedFloat.pack Format.binary64 (.finite sign m e hpos) =
      packComponents Format.binary64 sign (BitVec.ofNat 11 (e + 1023 + 52).toNat)
        (BitVec.ofNat 52 m) := by
  have hbias : Format.binary64.exponentBias = 1023 := by decide
  have hbits : Format.binary64.mantissaBits = 53 := by decide
  have hlog : m.log2 = 52 := (Nat.log2_eq_iff (by omega)).mpr ⟨hlow, hhigh⟩
  simp only [UnpackedFloat.pack, hbias, hbits, hlog]
  rw [if_neg (by omega), if_pos trivial]
  rfl

/-- A pattern that is valid is what its number is packed into. -/
theorem pack_unpack {b : BitVec Format.binary64.numBits} (hvalid : Format.binary64.Valid b) :
    UnpackedFloat.pack Format.binary64 (UnpackedFloat.unpack Format.binary64 b) = b := by
  have hb := packComponents_fields b
  have hfraction : (unpackMantissa b).toNat < 2 ^ 52 := (unpackMantissa b).isLt
  have hexponent : (unpackExponent b).toNat < 2 ^ 11 := (unpackExponent b).isLt
  have hbias : (Format.binary64.exponentBias : Int) = 1023 := by decide
  unfold UnpackedFloat.unpack
  dsimp only
  split
  · rename_i hones
    split
    · rename_i hzero
      simp only [UnpackedFloat.pack, packedInfinity]
      rw [← hones]
      conv_rhs => rw [← hb, hzero]
      rfl
    · rename_i hnan
      exact (hvalid.eq_packedNaN hones hnan).symm
  · rename_i hones
    have hfinite : (unpackExponent b).toNat ≠ 2047 := fun h =>
      hones (BitVec.eq_of_toNat_eq (h.trans (by decide)))
    split
    · rename_i hsmall
      split
      · rename_i hzero
        simp only [UnpackedFloat.pack, packedZero]
        conv_rhs => rw [← hb, hzero, hsmall]
        rfl
      · have hexponent0 : (unpackExponent b).toNat = 0 := by rw [hsmall]; rfl
        rw [pack_subnormal hfraction (by rw [hbias, hexponent0]; rfl), BitVec.ofNat_toNat,
          BitVec.setWidth_eq]
        conv_rhs => rw [← hb, hsmall]
    · have hone : (1#1 ++ unpackMantissa b).toNat = 2 ^ 52 + (unpackMantissa b).toNat := by
        rw [BitVec.toNat_append, Nat.shiftLeft_eq]
        exact (Nat.two_pow_add_eq_or_of_lt hfraction 1).symm
      have hbiased : (((unpackExponent b).toNat : Int) - (1023 + (52 : Nat)) + 1023 + 52).toNat =
          (unpackExponent b).toNat := by omega
      have hdrop : BitVec.ofNat 52 (1#1 ++ unpackMantissa b).toNat = unpackMantissa b := by
        rw [hone]
        exact BitVec.eq_of_toNat_eq (by rw [BitVec.toNat_ofNat]; omega)
      rw [hbias, pack_normal (by omega) (by omega) (by omega), hdrop, hbiased, BitVec.ofNat_toNat,
        BitVec.setWidth_eq]
      exact hb

/-- A double is the one with its bits. -/
theorem ofBits_toBits (x : Float) : Float.ofBits x.toBits = x := by
  obtain ⟨⟨bits, hvalid⟩⟩ := x
  have h := pack_unpack hvalid
  unfold Float.ofBits Float.toBits Float.Model.ofBits Float.Model.pack
  congr

/-- Bits that are not those of a double that is no number are found again in their double. -/
theorem toBits_ofBits {b : UInt64} (h : b.toNat % 2 ^ 63 < infinityBits) :
    (Float.ofBits b).toBits = b := by
  have hvalid : Format.binary64.Valid b.toBitVec := by
    refine ⟨fun hones => absurd (congrArg BitVec.toNat hones) ?_⟩
    have hexponent : (@unpackExponent Format.binary64 b.toBitVec).toNat =
        b.toNat / 2 ^ 52 % 2 ^ 11 := by
      simp only [unpackExponent, BitVec.toNat_cast, BitVec.extractLsb_toNat, Nat.shiftRight_eq_div_pow]
      rfl
    have hall : (-1#11).toNat = 2047 := by decide
    unfold infinityBits at h
    simp only [Nat.pow_eq] at h
    rw [hexponent]
    intro heq
    have heq' : b.toNat / 2 ^ 52 % 2 ^ 11 = 2047 := heq.trans hall
    omega
  have hbits : (Float.ofBits b).toBits =
      UInt64.ofBitVec (UnpackedFloat.pack Format.binary64
        (UnpackedFloat.unpack Format.binary64 b.toBitVec)) := rfl
  rw [hbits, pack_unpack hvalid]

end Bits

/-! ## 2. The parts of a finite double -/

/-- The significand and the scale of a finite double: 53 bits at most, all of them used unless the
scale is the smallest one. -/
structure IsParts (significand scale : Nat) : Prop where
  lt : significand < 2 ^ 53
  normal : scale = 0 ∨ 2 ^ 52 ≤ significand
  le : scale ≤ 2045

variable {negative : Bool} {m p : Nat}

theorem one_pos : 0 < one := Nat.two_pow_pos 1074

/-- The bits of a finite magnitude, a carry out of the significand included. -/
theorem magnitudeBits_eq (hm : m ≤ 2 ^ 53) (hp : p ≤ 2045) :
    magnitudeBits m p = p * 2 ^ 52 + m := by
  unfold magnitudeBits infinityBits
  simp only [Nat.pow_eq]
  exact Nat.min_eq_left (by omega)

/-- Parts are found again in their bits. -/
theorem ofMagnitudeBits_eq (h : IsParts m p) :
    ofMagnitudeBits negative (p * 2 ^ 52 + m) = .finite negative m p := by
  obtain ⟨hlt, hnormal, hle⟩ := h
  unfold ofMagnitudeBits
  simp only [Nat.pow_eq]
  rcases Nat.lt_or_ge m (2 ^ 52) with hm | hm
  · obtain rfl : p = 0 := hnormal.resolve_right (by omega)
    rw [if_pos (by omega), Nat.mod_eq_of_lt (by omega), Nat.zero_mul, Nat.zero_add]
  · have hdiv : (p * 2 ^ 52 + m) / 2 ^ 52 = p + 1 := by omega
    have hmod : (p * 2 ^ 52 + m) % 2 ^ 52 = m - 2 ^ 52 := by omega
    have hwhole : 2 ^ 52 + (m - 2 ^ 52) = m := by omega
    rw [if_neg (by omega), if_pos (by omega), hdiv, hmod, hwhole, Nat.add_sub_cancel]

/-- What is finite among the doubles that bits are taken into. -/
theorem eq_of_ofMagnitudeBits {sign : Bool} {bits : Nat}
    (h : ofMagnitudeBits sign bits = .finite negative m p) :
    negative = sign ∧ IsParts m p ∧ p * 2 ^ 52 + m = bits := by
  have hmod : bits % 2 ^ 52 < 2 ^ 52 := Nat.mod_lt _ (by decide)
  unfold ofMagnitudeBits at h
  simp only [Nat.pow_eq] at h
  split at h
  · cases h
    exact ⟨rfl, ⟨by omega, .inl rfl, by omega⟩, by omega⟩
  · split at h
    · cases h
      exact ⟨rfl, ⟨by omega, .inr (by omega), by omega⟩, by omega⟩
    · split at h <;> cases h

theorem isParts_of_ofFloat {x : Float} (h : ofFloat x = .finite negative m p) : IsParts m p :=
  (eq_of_ofMagnitudeBits h).2.1

/-- **A finite double is put together again from its parts.** -/
theorem toFloat_of_ofFloat {x : Float} (h : ofFloat x = .finite negative m p) :
    (Binary64.finite negative m p).toFloat = x := by
  obtain ⟨hsign, hparts, hbits⟩ := eq_of_ofMagnitudeBits h
  have hlt : x.toBits.toNat < 2 ^ 64 := x.toBits.toNat_lt
  have hsum : signBits negative + magnitudeBits m p = x.toBits.toNat := by
    rw [magnitudeBits_eq (Nat.le_of_lt hparts.lt) hparts.le, hbits, hsign]
    unfold signBits
    simp only [Nat.pow_eq, decide_eq_true_eq]
    split <;> omega
  have hwhole : (Binary64.finite negative m p).toFloat =
      Float.ofBits (UInt64.ofNat (signBits negative + magnitudeBits m p)) := rfl
  rw [hwhole, hsum, UInt64.ofNat_toNat, ofBits_toBits]

/-- **The parts of a finite double are found again in it.** -/
theorem ofFloat_toFloat (h : IsParts m p) :
    ofFloat (Binary64.finite negative m p).toFloat = .finite negative m p := by
  obtain ⟨hlt, hnormal, hle⟩ := h
  have hmagnitude := magnitudeBits_eq (Nat.le_of_lt hlt) hle
  have hwhole : (Binary64.finite negative m p).toFloat =
      Float.ofBits (UInt64.ofNat (signBits negative + magnitudeBits m p)) := rfl
  have hbits : (UInt64.ofNat (signBits negative + magnitudeBits m p)).toNat =
      signBits negative + (p * 2 ^ 52 + m) := by
    rw [hmagnitude, UInt64.toNat_ofNat']
    unfold signBits
    simp only [Nat.pow_eq]
    split <;> omega
  have hrest : (signBits negative + (p * 2 ^ 52 + m)) % 2 ^ 63 = p * 2 ^ 52 + m := by
    unfold signBits
    simp only [Nat.pow_eq]
    split <;> omega
  have hsign : decide (2 ^ 63 ≤ signBits negative + (p * 2 ^ 52 + m)) = negative := by
    unfold signBits
    simp only [Nat.pow_eq]
    cases negative with
    | false => exact decide_eq_false (by simp; omega)
    | true => exact decide_eq_true (by simp)
  have hfinite : (UInt64.ofNat (signBits negative + magnitudeBits m p)).toNat % 2 ^ 63 <
      infinityBits := by
    rw [hbits, hrest]
    unfold infinityBits
    simp only [Nat.pow_eq]
    omega
  unfold ofFloat
  simp only [Nat.pow_eq]
  rw [hwhole, toBits_ofBits hfinite, hbits, hrest, hsign]
  exact ofMagnitudeBits_eq ⟨hlt, hnormal, hle⟩

end TreeScript.Binary64
