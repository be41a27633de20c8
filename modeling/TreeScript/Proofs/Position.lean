import TreeScript.Proofs.Binary64.Sum
import TreeScript.Value.Operation

/-!
# The position that an index selects

A position is found from an index without leaving the doubles: the fraction of the index is dropped,
the length is added to what is below zero, and the outcome is compared with zero and with the length
before it becomes a machine word: `doublePosition?`.  The length as a double is exact below `2^53`,
and a sum that is not exact is below zero, so that up to this length the outcome is the position in
the integers: `position?_eq_doublePosition?`.
-/

namespace TreeScript

namespace Binary64

/-- A double without its fraction. -/
def integral (x : Float) : Float :=
  match ofFloat x with
  | .finite negative m p => (nearest negative (units m p / one * one) 1).toFloat
  | _ => x

variable {x : Float} {k : Int}

/-- The magnitude of a double without its fraction is that of a double. -/
theorem exists_parts_integral {m p : Nat} (h : IsParts m p) :
    ∃ m' p', IsParts m' p' ∧ units m' p' = units m p / one * one := by
  obtain ⟨s, hs⟩ : ∃ s, s = 1074 := ⟨_, rfl⟩
  rcases Nat.le_total p s with hp | hp
  · have hlt : units m p / one < 2 ^ 53 := by
      have hdrop : units m p / one = m / 2 ^ (s - p) := by
        rw [units_div_one, ← hs, Nat.sub_eq_zero_of_le hp, Nat.pow_zero, Nat.mul_one]
      rw [hdrop]
      exact (Nat.div_le_self m _).trans_lt h.lt
    obtain ⟨m', p', hparts, hunits⟩ := exists_parts hlt (s := s) (by omega)
    exact ⟨m', p', hparts, hunits.trans (congrArg _ (one_eq hs).symm)⟩
  · have hdvd : one ∣ units m p := by
      rw [one_eq hs]
      exact Dvd.dvd.mul_left (Nat.pow_dvd_pow 2 hp) m
    exact ⟨m, p, h, (Nat.div_mul_cancel hdvd).symm⟩

theorem signed_mul (negative : Bool) (a b : Nat) :
    signed negative (a * b) = signed negative a * b := by
  cases negative with
  | false => exact Int.natCast_mul a b
  | true =>
    simp only [signed, if_true]
    rw [Int.natCast_mul, Int.neg_mul]

/-- A double that truncates to an integer has that value without its fraction. -/
theorem value_integral (h : (ofFloat x).truncated = some k) :
    (ofFloat (integral x)).value? = some (k * one) := by
  unfold integral
  cases hx : ofFloat x with
  | nan => rw [hx] at h; cases h
  | infinite negative => rw [hx] at h; cases h
  | finite negative m p =>
    rw [hx] at h
    obtain ⟨m', p', hparts, hunits⟩ := exists_parts_integral (isParts_of_ofFloat hx)
    have hwhole : signed negative (units m p / one) = k := Option.some.inj h
    have hvalue : signed negative (units m p / one * one) = k * one := by
      rw [signed_mul, hwhole]
    dsimp only
    rw [← hunits, nearest_units hparts, ofFloat_toFloat hparts, ← hvalue, ← hunits]
    rfl

/-- A double that truncates to no integer is not finite, and has no fraction to drop. -/
theorem value_integral_eq_none (h : (ofFloat x).truncated = none) :
    (ofFloat (integral x)).value? = none := by
  unfold integral
  cases hx : ofFloat x with
  | nan =>
    dsimp only
    rw [hx]
    rfl
  | infinite negative =>
    dsimp only
    rw [hx]
    rfl
  | finite negative m p => rw [hx] at h; cases h

end Binary64

namespace Value

open Binary64

/-- A place as a machine word, if it is neither below zero nor beyond the size. -/
def placeIn? (size place : Float) : Option Nat :=
  if !place.isFinite || decide (place < 0) || decide (size ≤ place) then none
  else some place.toUInt64.toNat

/-- **The position that an index selects, found with doubles.** -/
def doublePosition? (length : Nat) (index : Float) : Option Nat :=
  let size := (UInt64.ofNat length).toFloat
  placeIn? size (if integral index < 0 then size + integral index else integral index)

theorem value_zero : (ofFloat 0).value? = some 0 := by
  have hzero : ofFloat 0 = .finite false 0 0 := rfl
  rw [hzero]
  rfl

/-- The length of a sequence as a double. -/
theorem value_size {length : Nat} (h : length < 2 ^ 53) :
    (ofFloat (UInt64.ofNat length).toFloat).value? = some ((length : Int) * one) := by
  have hsize : UInt64.size = 2 ^ 64 := rfl
  have hword : (UInt64.ofNat length).toNat = length := UInt64.toNat_ofNat_of_lt' (by omega)
  rw [ofFloat_toFloat_word, hword, one_eq rfl]
  exact value_nearestTo_of_lt (by omega) (by decide)

variable {length : Nat} {place size : Float}

/-- The sign of a double that is an integer. -/
theorem neg_iff {x : Float} {r : Int} (hx : (ofFloat x).value? = some (r * one)) :
    x < 0 ↔ r < 0 := by
  have hscaled := mul_lt_mul_iff_of_pos_right (b := r) (c := 0) pos_one
  rw [zero_mul] at hscaled
  exact (lt_iff hx value_zero).trans hscaled

/-- What is not finite is no place. -/
theorem placeIn?_eq_none (h : (ofFloat place).value? = none) : placeIn? size place = none := by
  refine if_pos ?_
  rw [isFinite_eq, h]
  rfl

/-- What is below zero is no place. -/
theorem placeIn?_of_neg (h : place < 0) : placeIn? size place = none := by
  refine if_pos ?_
  rw [decide_eq_true h, Bool.or_true, Bool.true_or]

/-- A place that is an integer is compared as one. -/
theorem placeIn?_eq {r : Int} (hlength : length < 2 ^ 53)
    (hsize : (ofFloat size).value? = some ((length : Int) * one))
    (hplace : (ofFloat place).value? = some (r * one)) :
    placeIn? size place = if 0 ≤ r ∧ r < length then some r.toNat else none := by
  have hneg := neg_iff hplace
  have hout : size ≤ place ↔ (length : Int) ≤ r := by
    rw [le_iff hsize hplace, Int.mul_le_mul_iff_of_pos_right pos_one]
  have hfinite : place.isFinite = true := by
    rw [isFinite_eq, hplace]
    rfl
  unfold placeIn?
  rw [hfinite]
  by_cases h : 0 ≤ r ∧ r < length
  · have hquotient : r * one / one = r := Int.mul_ediv_cancel _ pos_one.ne'
    have hword := toNat_toUInt64 hplace (Int.mul_nonneg h.1 pos_one.le) (by omega)
    have hin : ¬((!true || decide (place < 0) || decide (size ≤ place)) = true) := by
      simp only [Bool.not_true, Bool.false_or, Bool.or_eq_true, decide_eq_true_eq, hneg, hout]
      omega
    rw [if_neg hin, if_pos h]
    congr 1
    omega
  · have hin : (!true || decide (place < 0) || decide (size ≤ place)) = true := by
      simp only [Bool.not_true, Bool.false_or, Bool.or_eq_true, decide_eq_true_eq, hneg, hout]
      omega
    rw [if_pos hin, if_neg h]

/-- A place that is counted from the end: the sum is exact if it is in the sequence, and below zero
if it is not. -/
theorem placeIn?_from_end {r : Int} (hr : r < length) (hlength : length < 2 ^ 53)
    (hsize : (ofFloat size).value? = some ((length : Int) * one))
    (hplace : (ofFloat place).value? = (nearestTo (r * one)).value?) :
    placeIn? size place = if 0 ≤ r ∧ r < length then some r.toNat else none := by
  rcases lt_or_ge r 0 with hout | hin
  · have hneg : r * one < 0 := Int.mul_neg_of_neg_of_pos hout pos_one
    rw [if_neg (by omega)]
    cases hvalue : (ofFloat place).value? with
    | none => exact placeIn?_eq_none hvalue
    | some a =>
      refine placeIn?_of_neg ((lt_iff hvalue value_zero).mpr ?_)
      exact neg_of_value_nearestTo hneg (hplace.symm.trans hvalue)
  · have hexact : (nearestTo (r * one)).value? = some (r * one) := by
      rw [one_eq rfl]
      exact value_nearestTo_of_lt (by omega) (by decide)
    exact placeIn?_eq hlength hsize (hplace.trans hexact)

/-- **An index selects the same position in the doubles and in the integers.** -/
theorem position?_eq_doublePosition? (length : Nat) (hlength : length < 2 ^ 53) (index : Float) :
    position? length index = doublePosition? length index := by
  have hsize := value_size hlength
  unfold position? doublePosition?
  cases hk : (ofFloat index).truncated with
  | none =>
    have hnone := value_integral_eq_none hk
    refine (placeIn?_eq_none ?_).symm
    split
    · exact value_add_eq_none _ hnone
    · exact hnone
  | some k =>
    have hvalue := value_integral hk
    have hneg := neg_iff hvalue
    dsimp only
    by_cases hk0 : k < 0
    · have hsum := value_add hsize hvalue
      rw [← Int.add_mul] at hsum
      rw [if_pos hk0, if_pos (hneg.mpr hk0)]
      exact (placeIn?_from_end (by omega) hlength hsize hsum).symm
    · rw [if_neg hk0, if_neg (mt hneg.mp hk0)]
      exact (placeIn?_eq hlength hsize hvalue).symm

end Value

end TreeScript
