import TreeScript.Decimal.Notation
import TreeScript.Proofs.Decimal.Digits
import TreeScript.Proofs.Decimal.Fewest
import TreeScript.Proofs.Binary64.Sum

/-!
# The plain text of a double

The plain text of a double, `IsPlain`, is a word if the double is not finite.  A finite one is
written with its sign and with its shortest decimal, without a power of ten: if it is integral as an
integer, and otherwise with digits on both sides of a point.  The plain notation writes this text and
no other: `isPlain_iff_write`.

Whether a double is integral shows in its shortest decimal, `isIntegral_iff_exponent`: what has no
fraction is a multiple of one in its own interval, and so the search stops at a power of ten that is
not below one; and an integer that is read as a double is the double itself, unless the places of the
double are larger than one.
-/

namespace TreeScript

open Binary64 (IsParts Encloses)

variable {negative : Bool} {m p : Nat}

/-! ## 1. Integers -/

namespace Decimal

/-- An integer in the interval of a double whose last place is not larger than one is the double. -/
theorem units_eq_of_encloses {n : Nat} (hp : p ≤ 1074) (h : Encloses m p (n * Binary64.one : Nat)) :
    Binary64.units m p = n * Binary64.one := by
  obtain ⟨s, hs⟩ : ∃ s, s = 1074 := ⟨_, rfl⟩
  have hone : Binary64.one = 2 ^ (s - p) * 2 ^ p := by
    rw [Binary64.one_eq hs, ← Nat.pow_add, Nat.sub_add_cancel (hs ▸ hp)]
  rw [hone] at h ⊢
  obtain ⟨hlow, hhigh⟩ := h.le
  have hplace : 0 < 2 ^ p := Nat.two_pow_pos p
  have hlow' : lowerEnd m p * 2 ^ p ≤ 4 * (n * 2 ^ (s - p)) * 2 ^ p := by
    rw [Nat.mul_assoc 4, Nat.mul_assoc n]
    exact_mod_cast hlow
  have hhigh' : 4 * (n * 2 ^ (s - p)) * 2 ^ p ≤ upperEnd m * 2 ^ p := by
    rw [Nat.mul_assoc 4, Nat.mul_assoc n]
    exact_mod_cast hhigh
  have hge := Nat.le_of_mul_le_mul_right hlow' hplace
  have hle := Nat.le_of_mul_le_mul_right hhigh' hplace
  have hend := Binary64.le_lowerEnd m p
  unfold upperEnd at hle
  have hm : m = n * 2 ^ (s - p) := by omega
  unfold Binary64.units
  rw [Nat.pow_eq, ← Nat.mul_assoc, ← hm]

/-- The last place of an integer of 53 bits is not larger than one. -/
theorem scale_le_of_units_eq {c : Nat} (hparts : IsParts m p)
    (hunits : Binary64.units m p = c * Binary64.one) (hc : c < 2 ^ 53) : p ≤ 1074 := by
  by_contra hlarge
  have hm := hparts.normal.resolve_left (by omega)
  obtain ⟨s, hs⟩ : ∃ s, s = 1074 := ⟨_, rfl⟩
  have hone : 0 < 2 ^ s := Nat.two_pow_pos s
  have hlt : Binary64.units m p < 2 ^ 53 * 2 ^ s := by
    rw [hunits, Binary64.one_eq hs]
    exact Nat.mul_lt_mul_of_pos_right hc hone
  have hge : 2 ^ 52 * 2 ^ (s + 1) ≤ Binary64.units m p :=
    Nat.mul_le_mul hm (Nat.pow_le_pow_right (by decide) (by omega))
  rw [Nat.pow_succ] at hge
  omega

/-- **A double is integral** if the power of ten of its shortest decimal is not below one. -/
theorem isIntegral_iff_exponent (tie : Tie) (hm : 0 < m) :
    (Binary64.finite negative m p).isIntegral = true ↔ 0 ≤ (shortest tie m p).2 := by
  have hintegral : (Binary64.finite negative m p).isIntegral = true ↔
      Binary64.one ∣ Binary64.units m p := by
    rw [Nat.dvd_iff_mod_eq_zero]
    exact decide_eq_true_iff
  rw [hintegral]
  constructor
  · rintro ⟨n, hn⟩
    have hunits := multiple_natCast n 0
    rw [Nat.pow_zero, Nat.mul_one, Nat.mul_comm, ← hn] at hunits
    have hself := Binary64.encloses_units (p := p) hm
    rw [← hunits] at hself
    exact le_shortest tie hm hself
  · intro hexponent
    obtain ⟨k, hk⟩ := Int.eq_ofNat_of_zero_le hexponent
    rcases Nat.lt_or_ge 1074 p with hp | hp
    · obtain ⟨s, hs⟩ : ∃ s, s = 1074 := ⟨_, rfl⟩
      rw [Binary64.one_eq hs]
      exact Dvd.dvd.mul_left (Nat.pow_dvd_pow 2 (by omega)) m
    · have hin := shortest_encloses (p := p) tie false hm
      rw [units_eq_multiple, hk, multiple_natCast] at hin
      exact ⟨_, (units_eq_of_encloses hp hin).trans (Nat.mul_comm _ _)⟩

theorem isIntegral_zero (negative : Bool) (p : Nat) :
    (Binary64.finite negative 0 p).isIntegral = true := by
  have hzero : Binary64.units 0 p = 0 := Nat.zero_mul _
  unfold Binary64.isIntegral
  dsimp only
  rw [hzero, Nat.zero_mod]
  rfl

theorem pos_of_not_integral (h : (Binary64.finite negative m p).isIntegral = false) : 0 < m := by
  rcases Nat.eq_zero_or_pos m with rfl | hm
  · rw [isIntegral_zero] at h
    cases h
  · exact hm

theorem units_zero (negative : Bool) : units ⟨negative, 0, 0⟩ = 0 :=
  (units_eq_mul _).trans (by rw [Nat.cast_zero, zero_mul])

/-- The shortest decimal of a magnitude that is zero. -/
theorem isShortest_zero (negative : Bool) : IsShortest negative 0 0 ⟨negative, 0, 0⟩ := by
  have hunits := units_zero negative
  have hzero : Binary64.units 0 0 = 0 := rfl
  have hwidth : width ⟨negative, 0, 0⟩ = 1 := congrArg List.length (Nat.toDigits_zero 10)
  have hgap : gap 0 0 (units ⟨negative, 0, 0⟩) = 0 := by
    unfold gap
    rw [hunits, hzero, Nat.cast_zero, sub_zero, abs_zero]
  refine ⟨rfl, fun d' _ => ?_, fun d' _ _ => ?_, fun d' _ _ heq => ?_⟩
  · rw [hwidth]
    exact d'.width_pos
  · rw [hgap]
    exact abs_nonneg _
  · rw [hgap] at heq
    have hsame := sub_eq_zero.mp (abs_eq_zero.mp heq.symm)
    rw [hunits, hsame, hzero, Nat.cast_zero]

/-- **An integer of 53 bits is its own shortest decimal**, though perhaps not with the power of ten
zero. -/
theorem exists_isShortest_integer {c : Nat} (negative : Bool) (hparts : IsParts m p)
    (hunits : Binary64.units m p = c * Binary64.one) (hc : c < 2 ^ 53) :
    ∃ d, IsShortest negative m p d ∧ d.units = (c * Binary64.one : Nat) := by
  rcases Nat.eq_zero_or_pos m with rfl | hm
  · obtain rfl : p = 0 := hparts.normal.resolve_right (by omega)
    have hzero : Binary64.units 0 0 = 0 := rfl
    refine ⟨_, isShortest_zero negative, ?_⟩
    rw [units_zero, ← hunits, hzero, Nat.cast_zero]
  · refine ⟨_, isShortest_shortest negative hparts hm, ?_⟩
    have hintegral : (Binary64.finite negative m p).isIntegral = true := by
      refine decide_eq_true ?_
      rw [hunits, Nat.mul_mod_left]
    obtain ⟨k, hk⟩ := Int.eq_ofNat_of_zero_le ((isIntegral_iff_exponent .up hm).mp hintegral)
    have hin := shortest_encloses (p := p) .up negative hm
    rw [units_eq_multiple, hk, multiple_natCast] at hin ⊢
    rw [← units_eq_of_encloses (scale_le_of_units_eq hparts hunits hc) hin, hunits]

end Decimal

/-! ## 2. Texts -/

namespace Notation

open Decimal

/-- The sign of a double. -/
def signText (negative : Bool) : List Char := if negative then ['-'] else []

/-- **The plain text of a double.** -/
inductive IsPlain : Binary64 → List Char → Prop where
  | nan : IsPlain .nan ['N', 'a', 'N']
  | infinite (negative : Bool) : IsPlain (.infinite negative) (signText negative ++ ['i', 'n', 'f'])
  | integral {negative : Bool} {m p n : Nat} {d : Decimal}
      (hintegral : (Binary64.finite negative m p).isIntegral = true)
      (h : IsShortest negative m p d) (hn : d.units = (n * Binary64.one : Nat)) :
      IsPlain (.finite negative m p) (signText negative ++ digitsOfNat n)
  | fractional {negative : Bool} {m p : Nat} {d : Decimal} {whole fraction : List Char}
      (hintegral : (Binary64.finite negative m p).isIntegral = false)
      (h : IsShortest negative m p d)
      (hpointed : IsPointed d.coefficient d.exponent whole fraction) :
      IsPlain (.finite negative m p) (signText negative ++ (whole ++ '.' :: fraction))

/-- **A double has one plain text.** -/
theorem IsPlain.unique {b : Binary64} {cs cs' : List Char} (h : IsPlain b cs) (h' : IsPlain b cs') :
    cs = cs' := by
  cases h with
  | nan => cases h'; rfl
  | infinite negative => cases h'; rfl
  | integral hintegral h hn =>
    cases h' with
    | integral hintegral' h' hn' =>
      have hunits := (hn.symm.trans (h.units_eq h')).trans hn'
      have hunits' := Nat.eq_of_mul_eq_mul_right Binary64.one_pos (Nat.cast_injective hunits)
      rw [hunits']
    | fractional hintegral' h' hpointed' =>
      rw [hintegral] at hintegral'
      cases hintegral'
  | fractional hintegral h hpointed =>
    cases h' with
    | integral hintegral' h' hn' =>
      rw [hintegral'] at hintegral
      cases hintegral
    | fractional hintegral' h' hpointed' =>
      obtain rfl := h.unique (pos_of_not_integral hintegral) h'
      obtain ⟨rfl, rfl⟩ := hpointed.unique hpointed'
      rfl

/-- With a power of ten that is not below one the digits are those of an integer. -/
theorem positional_integer {a : Nat} (ha : 0 < a) (k : Nat) :
    positional false (digitsOfNat a) k = digitsOfNat (a * 10 ^ k) := by
  unfold positional
  rw [if_pos (Int.natCast_nonneg k), digitsOfNat_mul_pow ha]
  simp

/-- The plain notation writes the plain text of a finite double. -/
theorem isPlain_writeMagnitude (negative : Bool) (hparts : IsParts m p) :
    IsPlain (.finite negative m p) (signText negative ++ plain.writeMagnitude m p) := by
  rcases Nat.eq_zero_or_pos m with rfl | hm
  · obtain rfl : p = 0 := hparts.normal.resolve_right (by omega)
    have hunits : units ⟨negative, 0, 0⟩ = (0 * Binary64.one : Nat) := by
      rw [units_zero, Nat.zero_mul, Nat.cast_zero]
    have htext : plain.writeMagnitude 0 0 = digitsOfNat 0 := (Nat.toDigits_zero 10).symm
    rw [htext]
    exact .integral (isIntegral_zero negative 0) (isShortest_zero negative) hunits
  · have hshortest := isShortest_shortest negative hparts hm
    have hexponent : (Binary64.finite negative m p).isIntegral = true ↔
        0 ≤ (shortest .up m p).2 := isIntegral_iff_exponent .up hm
    have hlayout : plain.writeMagnitude m p =
        positional false (digitsOfNat (shortest .up m p).1) (shortest .up m p).2 :=
      if_neg hm.ne'
    rw [hlayout]
    cases hintegral : (Binary64.finite negative m p).isIntegral with
    | true =>
      obtain ⟨k, hk⟩ := Int.eq_ofNat_of_zero_le (hexponent.mp hintegral)
      rw [hk] at hshortest ⊢
      rw [positional_integer (shortest_pos .up hm)]
      exact .integral hintegral hshortest (multiple_natCast _ k)
    | false =>
      rw [hintegral] at hexponent
      obtain ⟨whole, fraction, hpointed, htext⟩ :=
        exists_isPointed false (shortest .up m p).1 (Int.not_le.mp (mt hexponent.mpr nofun))
      rw [htext]
      exact .fractional hintegral hshortest hpointed

/-- **The plain notation writes the plain text.** -/
theorem isPlain_write (x : Float) : IsPlain (Binary64.ofFloat x) (plain.write x) := by
  unfold write
  cases hx : Binary64.ofFloat x with
  | nan => exact .nan
  | infinite negative => exact .infinite negative
  | finite negative m p => exact isPlain_writeMagnitude negative (Binary64.isParts_of_ofFloat hx)

/-- **The plain notation writes the plain text and nothing else.** -/
theorem isPlain_iff_write {x : Float} {cs : List Char} :
    IsPlain (Binary64.ofFloat x) cs ↔ cs = plain.write x := by
  constructor
  · intro h
    exact h.unique (isPlain_write x)
  · rintro rfl
    exact isPlain_write x

end Notation

end TreeScript
