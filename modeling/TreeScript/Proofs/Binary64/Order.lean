import Mathlib
import TreeScript.Proofs.Binary64.Unpacked

/-!
# The order of doubles

Doubles stand in one line: the finite ones at their exact values, so that the two zeros stand at the
same place, and the infinities at the two ends.  NaN stands nowhere.  This place is the **rank** of
a double.  One double is less than another if its rank is lower (`lt_iff_rank`), and they are equal
as numbers if they have the same rank (`beq_iff_rank`); with NaN neither holds.
-/

namespace TreeScript.Binary64

open Float.Model Float.Model.UnpackedFloat

/-! ## 1. Ranks -/

/-- **Where a double stands in the order of numbers**, if it stands anywhere. -/
def rank? : Binary64 → Option (WithBot (WithTop Int))
  | .nan => none
  | .infinite true => some ⊥
  | .infinite false => some ⊤
  | .finite negative m p =>
    some ((signed negative (units m p) : WithTop Int) : WithBot (WithTop Int))

/-- Every double but NaN has a rank. -/
theorem isNaN_iff_rank (x : Float) : x.isNaN = true ↔ (ofFloat x).rank? = none := by
  rw [isNaN_iff]
  cases ofFloat x with
  | nan => simp [rank?]
  | infinite negative => cases negative <;> simp [rank?]
  | finite negative m p => simp [rank?]

/-! ## 2. Comparisons -/

/-- **Doubles are equal as numbers** if they have the same rank. -/
theorem beq_iff_rank (x y : Float) :
    (x == y) = true ↔ ∃ r, (ofFloat x).rank? = some r ∧ (ofFloat y).rank? = some r := by
  rw [beq_iff]
  cases ofFloat x with
  | nan => cases ofFloat y <;> simp [Equal, rank?]
  | infinite negative =>
    cases ofFloat y with
    | nan => simp [Equal, rank?]
    | infinite negative' => cases negative <;> cases negative' <;> simp [Equal, rank?]
    | finite negative' m' p' => cases negative <;> simp [Equal, rank?, ← WithBot.coe_top]
  | finite negative m p =>
    cases ofFloat y with
    | nan => simp [Equal, rank?]
    | infinite negative' => cases negative' <;> simp [Equal, rank?, ← WithBot.coe_top]
    | finite negative' m' p' => simp [Equal, rank?, eq_comm]

/-- A finite number stands between the infinities. -/
theorem compare_infinity_finite (negative negative' : Bool) (m p : Nat) :
    UnpackedFloat.compare (.infinity (signOf negative)) (Binary64.finite negative' m p).unpacked =
        some (if negative then .lt else .gt) ∧
      UnpackedFloat.compare (Binary64.finite negative' m p).unpacked (.infinity (signOf negative)) =
        some (if negative then .gt else .lt) := by
  rcases Nat.eq_zero_or_pos m with rfl | hm
  · rw [unpacked_zero]
    cases negative <;> exact ⟨rfl, rfl⟩
  · rw [unpacked_finite hm]
    cases negative <;> exact ⟨rfl, rfl⟩

/-- **A double is less than another** if its rank is lower. -/
theorem lt_iff_rank (x y : Float) :
    x < y ↔ ∃ r r', (ofFloat x).rank? = some r ∧ (ofFloat y).rank? = some r' ∧ r < r' := by
  have hlt : x < y ↔
      decide ((x.toModel.unpack.compare y.toModel.unpack == some .lt) = true) = true := Iff.rfl
  have hnan : Binary64.nan.unpacked = .notANumber := rfl
  have hinfinite (negative : Bool) :
    (Binary64.infinite negative).unpacked = .infinity (signOf negative) := rfl
  rw [hlt, decide_eq_true_iff, beq_iff_eq, unpack_eq, unpack_eq]
  cases hx : ofFloat x with
  | nan => simp [hnan, UnpackedFloat.compare, rank?]
  | infinite negative =>
    cases hy : ofFloat y with
    | nan => simp [hnan, compare_notANumber, rank?]
    | infinite negative' =>
      rw [hinfinite, hinfinite]
      cases negative <;> cases negative' <;> simp [UnpackedFloat.compare, rank?, signOf]
      rfl
    | finite negative' m' p' =>
      rw [hinfinite, (compare_infinity_finite _ _ _ _).1]
      cases negative <;> simp [rank?]
  | finite negative m p =>
    cases hy : ofFloat y with
    | nan => simp [hnan, compare_notANumber, rank?]
    | infinite negative' =>
      rw [hinfinite, (compare_infinity_finite _ _ _ _).2]
      cases negative' <;> simp [rank?, ← WithBot.coe_top]
    | finite negative' m' p' =>
      rw [compare_unpacked (isParts_of_ofFloat hx) (isParts_of_ofFloat hy), Option.some_inj,
        compare_lt_iff_lt]
      simp [rank?]

end TreeScript.Binary64
