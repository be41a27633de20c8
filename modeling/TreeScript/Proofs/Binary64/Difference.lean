import TreeScript.Proofs.Binary64.Sum

/-!
# Differences and magnitudes of doubles

The machine subtracts by adding with the sign changed, so that the difference of two finite doubles
is the double nearest to the difference of their exact values: `value_sub`.  Nothing but zero is
rounded to zero, and so doubles whose difference is zero are the same number: `sub_beq_zero_iff`.
-/

namespace TreeScript

namespace Binary64

open Float.Model Float.Model.UnpackedFloat

variable {negative : Bool} {m p : Nat} {x y : Float} {a b : Int}

/-! ## 1. Differences -/

theorem signOf_not (negative : Bool) : signOf (!negative) = -signOf negative := by
  cases negative <;> rfl

theorem signed_not (negative : Bool) (v : Nat) : signed (!negative) v = -signed negative v := by
  cases negative <;> simp [signed]

/-- The parts of a double with its sign changed. -/
theorem unpacked_neg (negative : Bool) (m p : Nat) :
    (Binary64.finite negative m p).unpacked.neg = (Binary64.finite (!negative) m p).unpacked := by
  rcases Nat.eq_zero_or_pos m with rfl | hm
  · rw [unpacked_zero, unpacked_zero, signOf_not]
    rfl
  · rw [unpacked_finite hm, unpacked_finite hm, signOf_not]
    rfl

/-- The machine subtracts by adding with the sign changed. -/
theorem sub_eq_add_neg (u v : UnpackedFloat) :
    UnpackedFloat.sub Format.binary64 u v = UnpackedFloat.add Format.binary64 u v.neg := by
  have happly (s : Sign) (n : Nat) : (-s).apply (n : Int) = -s.apply n := by
    cases s with
    | positive => rfl
    | negative => exact (Int.neg_neg _).symm
  cases u with
  | finite s m e hm =>
    cases v with
    | finite s' m' e' hm' =>
      unfold UnpackedFloat.sub UnpackedFloat.add UnpackedFloat.neg
      simp only [happly, Int.sub_eq_add_neg]
    | _ => rfl
  | _ => cases v <;> rfl

theorem sub_eq_ofModel (x y : Float) : x - y = Float.ofModel (Float.Model.pack
    (UnpackedFloat.sub Format.binary64 x.toModel.unpack y.toModel.unpack)) := rfl

/-- **The difference of two finite doubles** is the double nearest to the difference of their
values. -/
theorem value_sub (hx : (ofFloat x).value? = some a) (hy : (ofFloat y).value? = some b) :
    (ofFloat (x - y)).value? = (nearestTo (a - b)).value? := by
  obtain ⟨negative, m, p, hpx, h, rfl⟩ := exists_parts_of_value hx
  obtain ⟨negative', m', p', hpy, h', rfl⟩ := exists_parts_of_value hy
  rw [sub_eq_ofModel, sub_eq_add_neg, unpack_eq, unpack_eq, hpx, hpy, unpacked_neg, Int.sub_eq_add_neg,
    ← signed_not]
  exact value_add_unpacked h h'

/-- Only zero is rounded to zero. -/
theorem value_nearestTo_eq_zero_iff : (nearestTo a).value? = some 0 ↔ a = 0 := by
  constructor
  · intro h
    by_contra hne
    unfold nearestTo at h
    rcases nearest_cases (v := a.natAbs) (by omega) (decide (a < 0)) with ⟨m, p, -, hm, heq⟩ | heq
    · rw [heq] at h
      have hzero : signed (decide (a < 0)) (units m p) = 0 := Option.some.inj h
      have hpos : 0 < units m p := units_pos hm
      unfold signed at hzero
      split at hzero <;> omega
    · rw [heq] at h
      cases h
  · rintro rfl
    rw [nearestTo_zero]
    rfl

theorem beq_zero_iff (x : Float) : (x == 0) = true ↔ (ofFloat x).value? = some 0 := by
  have hzero : ofFloat 0 = .finite false 0 0 := rfl
  rw [beq_iff, hzero]
  cases ofFloat x with
  | nan => simp [Equal, value?]
  | infinite negative => simp [Equal, value?]
  | finite negative m p => simp [Equal, value?, signed, units]

/-- **The difference of two finite doubles is zero** if they are the same number. -/
theorem sub_beq_zero_iff (hx : (ofFloat x).value? = some a) (hy : (ofFloat y).value? = some b) :
    (x - y == 0) = true ↔ a = b := by
  rw [beq_zero_iff, value_sub hx hy, value_nearestTo_eq_zero_iff, Int.sub_eq_zero]

/-! ## 2. Magnitudes -/

/-- A double without its sign. -/
theorem ofFloat_abs (h : ofFloat x = .finite negative m p) : ofFloat x.abs = .finite false m p := by
  have hparts := isParts_of_ofFloat h
  have habs : x.abs = Float.ofModel (Float.Model.pack x.toModel.unpack.abs) := rfl
  have hunpacked : (Binary64.finite negative m p).unpacked.abs =
      (Binary64.finite false m p).unpacked := by
    rcases Nat.eq_zero_or_pos m with rfl | hm
    · rfl
    · rw [unpacked_finite hm, unpacked_finite hm]
      rfl
  rw [habs, unpack_eq, h, hunpacked, ofModel_pack_of_isParts hparts, ofFloat_toFloat hparts]

end Binary64

end TreeScript
